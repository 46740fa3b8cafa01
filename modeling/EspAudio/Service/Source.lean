import EspAudio.Service.Sink

/-!
# The A2DP source callbacks

`filter_inquiry_scan_result`, `bt_app_gap_cb` and `bt_a2d_source_cb`. Three
kinds of events reach one link state: inquiry results, changes of the discovery
state and A2DP events. The classification of devices is the stack's.
-/

namespace EspAudio.Service

def getNameFromEir (eir : Option Eir) (bdname : EspPeerBdname) : EspPeerBdname × Bool :=
  match eir with
  | none => (bdname, false)
  | some eir =>
      match eir.cmplLocalName.orElse fun _ ↦ eir.shortLocalName with
      | none => (bdname, false)
      | some rmtBdname => (copyName bdname (rmtBdname.1.take maxBdnameLen), true)

-- What the loop over the properties collects: the class of device, the last extended inquiry
-- response and the name buffer. The signal strength is only logged.
structure ScanResult where
  cod : UInt32
  eir : Option Eir
  peerBdname : EspPeerBdname

def ScanResult.scan (r : ScanResult) : GapDevProp → ScanResult
  | .cod val => { r with cod := val }
  | .eir val => { r with eir := val, peerBdname := (getNameFromEir val r.peerBdname).1 }
  | .bdname | .rssi _ | .other => r

def scanProps (prop : List GapDevProp) (stackBuf : EspPeerBdname) : ScanResult :=
  prop.foldl ScanResult.scan ⟨0, none, stackBuf⟩

/-- The inquiry result is taken for the device looked for. -/
def targetFound (dev : GapCod) (svc : BluetoothService) (prop : List GapDevProp)
    (stackBuf : EspPeerBdname) : Bool :=
  let r := scanProps prop stackBuf
  if ¬ dev.isValidCod r.cod ∨ dev.getCodSrvc r.cod &&& codSrvcRendering = 0 then false
  else if r.eir.isNone then false
  else cString (getNameFromEir r.eir r.peerBdname).1 = cString svc.peerBdname

def filterInquiryScanResult (dev : GapCod) (svc : BluetoothService) (bda : EspBdAddr)
    (prop : List GapDevProp) (stackBuf : EspPeerBdname) : BluetoothService × List Call :=
  if targetFound dev svc prop stackBuf then
    ({ svc with sourceA2dState := .discovered, remoteBda := bda }, [.espBtGapCancelDiscovery])
  else (svc, [])

def pinReply (bda : EspBdAddr) (min16Digit : Bool) : List Call :=
  if min16Digit then [.espBtGapPinReply bda true 16 (List.replicate 16 0)]
  else [.espBtGapPinReply bda true 4 [0x31, 0x32, 0x33, 0x34]]

def btAppGapCb (dev : GapCod) (svc : BluetoothService) : GapEvent → BluetoothService × List Call
  | .discRes bda prop stackBuf => filterInquiryScanResult dev svc bda prop stackBuf
  | .discStateChanged .stopped =>
      if svc.sourceA2dState = .discovered then
        ({ svc with sourceA2dState := .connecting }, [.espA2dSourceConnect svc.remoteBda])
      else if svc.sourceA2dState ≠ .idle then (svc, [.espBtGapStartDiscovery 10 0])
      else (svc, [])
  | .discStateChanged .started => (svc, [])
  | .rmtSrvcs | .rmtSrvcRec => (svc, [])
  -- There is no `break`: the case falls through to the PIN request.
  | .authCmpl bda _ pinByte => (svc, pinReply bda pinByte)
  | .pinReq bda min16Digit => (svc, pinReply bda min16Digit)
  | .other => (svc, [])

def btA2dSourceCb (svc : BluetoothService) (e : A2dEvent) : BluetoothService × List Call :=
  match svc.sourceA2dState with
  | .discovering | .discovered => (svc, [])
  | .unconnected => (svc, [])
  | .connecting =>
      -- The connection member is read whatever the event is.
      if e.connStatState = A2dConnectionState.connected.code then
        ({ svc with sourceA2dState := .connected },
          [.espBtGapSetScanMode .none] ++ notifyPeriph svc .connected ++
            [.espA2dMediaCtrl .checkSrcRdy])
      else if e.connStatState = A2dConnectionState.disconnected.code then
        ({ svc with sourceA2dState := .unconnected }, [])
      else (svc, [])
  | .connected =>
      match e with
      | .mediaCtrlAck cmd status =>
          if cmd = .checkSrcRdy ∧ status = .success then (svc, [.espA2dMediaCtrl .start])
          else if cmd = .start ∧ status = .success then
            ({ svc with audioState := .started }, [])
          else if cmd ≠ .suspend then
            -- `BT_SOURCE_STATE_IDLE` is zero, which as an audio state is the remote suspend.
            ({ svc with audioState := .remoteSuspend }, [])
          else (svc, [])
      | .connectionState .disconnected _ =>
          ({ svc with sourceA2dState := .unconnected }, notifyPeriph svc .disconnected)
      | _ => (svc, [])
  | .disconnecting => (svc, [])
  | .idle => (svc, [])

/-! ## Names -/

theorem toList_copyName (dst : EspPeerBdname) {src : List UInt8}
    (hlen : src.length ≤ maxBdnameLen) :
    (copyName dst src).toList = src ++ 0 :: dst.toList.drop (src.length + 1) := by
  apply List.ext_getElem
  · simp only [Vector.length_toList, List.length_append, List.length_cons, List.length_drop]
    omega
  · intro i hi _
    simp only [copyName, Vector.getElem_toList, Vector.getElem_ofFn]
    split_ifs with hlt heq
    · rw [List.getElem_append_left hlt]
      rfl
    · simp [heq]
    · obtain ⟨k, rfl⟩ : ∃ k, i = src.length + 1 + k := ⟨i - src.length - 1, by omega⟩
      have hpast : src.length + 1 + k - src.length = k + 1 := by omega
      rw [List.getElem_append_right (by omega)]
      simp only [hpast, List.getElem_cons_succ, List.getElem_drop, Vector.getElem_toList]
      rfl

theorem takeWhile_append_nul (xs ys : List UInt8) :
    (xs ++ 0 :: ys).takeWhile (· ≠ 0) = xs.takeWhile (· ≠ 0) := by
  induction xs with
  | nil => simp
  | cons x xs ih =>
      rw [List.cons_append, List.takeWhile_cons, List.takeWhile_cons, ih]

/-- Copied into a buffer, a string ends at its first NUL. -/
theorem cString_copyName (dst : EspPeerBdname) {src : List UInt8}
    (hlen : src.length ≤ maxBdnameLen) :
    cString (copyName dst src) = src.takeWhile (· ≠ 0) := by
  rw [cString, toList_copyName dst hlen, takeWhile_append_nul]

end EspAudio.Service
