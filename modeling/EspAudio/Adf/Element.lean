import Mathlib.Tactic.Common

/-!
# Audio elements and error codes

What the components share: the `esp_err_t` codes they return, and the part of
an audio element that they read and write.
-/

namespace EspAudio.Adf

abbrev EspErr := Int

def espOk : EspErr := 0
def espFail : EspErr := -1
def espErrNoMem : EspErr := 0x101
def espErrInvalidState : EspErr := 0x103

inductive AudioStreamType where
  | none
  | reader
  | writer
  deriving DecidableEq, Repr

inductive AelState where
  | none
  | init
  | running
  | paused
  | stopped
  | finished
  | error
  deriving DecidableEq, Repr

inductive AelStatus where
  | inputDone
  deriving DecidableEq, Repr

/-- The fields of `audio_element_info_t` in use; the last two are `int64_t`. -/
structure AudioElementInfo where
  sampleRates : Int
  channels : Int
  bits : Int
  bytePos : Nat
  totalBytes : Int
  deriving DecidableEq, Repr

end EspAudio.Adf
