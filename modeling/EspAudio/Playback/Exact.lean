import EspAudio.Playback.Formats
import EspAudio.Reactive.Conduit

/-!
# The music is played as it came

Whatever turns the stack, the loop and the task of the writer take, what the I2S
driver is handed is what the ring buffer has taken from the service, in order
and unchanged, with silence in between.
-/

namespace EspAudio.Playback

open Adf CLanguage I2s KeyControl Reactive Service SinkLink

def Silent (block : List UInt8) : Prop := ∀ b ∈ block, b = 0

def BtSinkOutput.taken? : BtSinkOutput → Option (List UInt8)
  | .rbWrite bytes => some bytes
  | _ => none

def BtSinkOutput.played? : BtSinkOutput → Option (List UInt8)
  | .i2sWrite bytes => some bytes
  | _ => none

def BtSinkOutput.offered? : BtSinkOutput → Option (List UInt8)
  | .audioElementOutput data => some data
  | _ => none

/-- What has been taken or given up. -/
def BtSinkOutput.settled? : BtSinkOutput → Option (List UInt8)
  | .rbWrite bytes | .rbGiveUp bytes => some bytes
  | _ => none

/-- An output that carries no data. -/
def BtSinkOutput.Aside : BtSinkOutput → Prop
  | .call _ | .i2s _ => True
  | _ => False

/-- What is on its way from the ring buffer to the driver: the chunk of the writer, unless that is
silence. -/
def OnItsWay (s : BtSink) (held : List UInt8) : Prop :=
  ∃ chunk, held = chunk ++ s.ring ∧ (chunk = s.i2s.chunk ∨ chunk = [] ∧ Silent s.i2s.chunk)

/-- A step that moves no data. -/
structure Still (s : BtSink) (o : BtSink × List BtSinkOutput) : Prop where
  ring : o.1.ring = s.ring
  chunk : o.1.i2s.chunk = s.i2s.chunk
  incoming : o.1.incoming = s.incoming
  aside : ∀ x ∈ o.2, x.Aside

/-- What a step does to the data behind the ring buffer: it hands over pieces and silence, and keeps
the rest. -/
def Moves (held : List UInt8) (o : BtSink × List BtSinkOutput) : Prop :=
  ∃ played held', Padded Silent (o.2.filterMap BtSinkOutput.played?) played ∧
    held ++ (o.2.filterMap BtSinkOutput.taken?).flatten = played ++ held' ∧ OnItsWay o.1 held'

/-- What it does to the data before the ring buffer. -/
def Settles (incoming : List UInt8) (o : BtSink × List BtSinkOutput) : Prop :=
  incoming ++ (o.2.filterMap BtSinkOutput.offered?).flatten =
    (o.2.filterMap BtSinkOutput.settled?).flatten ++ o.1.incoming

section Steps

variable {T : ElementTask} {H : Handles} {s : BtSink} {held : List UInt8}

theorem filterMap_aside {os : List BtSinkOutput} (hos : ∀ x ∈ os, x.Aside)
    {f : BtSinkOutput → Option (List UInt8)} (hf : ∀ x, x.Aside → f x = none) :
    os.filterMap f = [] :=
  List.filterMap_eq_nil_iff.mpr fun x hx ↦ hf x (hos x hx)

theorem Still.moves {o : BtSink × List BtSinkOutput} (h : Still s o) (hheld : OnItsWay s held) :
    Moves held o := by
  have hplayed : o.2.filterMap BtSinkOutput.played? = [] :=
    filterMap_aside h.aside fun x hx ↦ by cases x <;> first | rfl | exact hx.elim
  have htaken : o.2.filterMap BtSinkOutput.taken? = [] :=
    filterMap_aside h.aside fun x hx ↦ by cases x <;> first | rfl | exact hx.elim
  refine ⟨[], held, hplayed ▸ .nil, by simp [htaken], ?_⟩
  rw [OnItsWay, h.ring, h.chunk]
  exact hheld

theorem Still.settles {o : BtSink × List BtSinkOutput} (h : Still s o) : Settles s.incoming o := by
  have hoffered : o.2.filterMap BtSinkOutput.offered? = [] :=
    filterMap_aside h.aside fun x hx ↦ by cases x <;> first | rfl | exact hx.elim
  have hsettled : o.2.filterMap BtSinkOutput.settled? = [] :=
    filterMap_aside h.aside fun x hx ↦ by cases x <;> first | rfl | exact hx.elim
  simp [Settles, hoffered, hsettled, h.incoming]

theorem filterMap_i2sWrite (blocks : List (List UInt8)) :
    (blocks.map BtSinkOutput.i2sWrite).filterMap BtSinkOutput.taken? = [] ∧
      (blocks.map BtSinkOutput.i2sWrite).filterMap BtSinkOutput.played? = blocks := by
  simp [List.filterMap_map, Function.comp_def, BtSinkOutput.taken?, BtSinkOutput.played?]

theorem aside_nil : ∀ x ∈ ([] : List BtSinkOutput), x.Aside := fun _ hx ↦ by cases hx

theorem aside_i2s (calls : List I2sCall) : ∀ x ∈ calls.map BtSinkOutput.i2s, x.Aside := by
  intro x hx
  obtain ⟨c, -, rfl⟩ := List.mem_map.mp hx
  trivial

theorem aside_call (calls : List Call) : ∀ x ∈ calls.map BtSinkOutput.call, x.Aside := by
  intro x hx
  obtain ⟨c, -, rfl⟩ := List.mem_map.mp hx
  trivial

theorem still_refl : Still s (s, []) := ⟨rfl, rfl, rfl, aside_nil⟩

theorem still_serve (e : SinkEvent) : Still s (s.serve e) := ⟨rfl, rfl, rfl, aside_call _⟩

theorem send_kept (room : Bool) (msg : EventMsg) : (s.send room msg).ring = s.ring ∧
    (s.send room msg).i2s = s.i2s ∧ (s.send room msg).incoming = s.incoming := by
  rw [BtSink.send]
  split_ifs <;> exact ⟨rfl, rfl, rfl⟩

theorem make_kept (room : Bool) (c : Call) : (s.make H room c).ring = s.ring ∧
    (s.make H room c).i2s = s.i2s ∧ (s.make H room c).incoming = s.incoming := by
  cases c with
  | audioElementSetinfo el sampleRates channels bits =>
      simp only [BtSink.make]
      split_ifs <;> exact ⟨rfl, rfl, rfl⟩
  | audioElementReportStatus el status =>
      cases status
      exact send_kept room _
  | audioElementReportInfo el => exact send_kept room _
  | espPeriphSendEvent periph cmd => exact send_kept room _
  | _ => exact ⟨rfl, rfl, rfl⟩

theorem still_handle (answer : EspErr) (msg : EventMsg) :
    Still s (btSinkHandle H answer s msg) := by
  cases msg with
  | button source long gpio =>
      simp only [btSinkHandle]
      split_ifs
      · cases buttonRequest H long gpio answer with
        | some request => exact still_serve _
        | none => exact still_refl
      · exact still_refl
  | other => exact still_refl
  | _ =>
      simp only [btSinkHandle]
      split_ifs <;> exact ⟨rfl, rfl, rfl, aside_nil⟩

theorem still_loop (answer : EspErr) : Still s (btSinkLoop T H answer s) := by
  cases hloop : s.loop with
  | listening =>
      cases hevt : s.evt with
      | nil =>
          simp only [btSinkLoop, hloop, hevt]
          exact still_refl
      | cons msg evt =>
          simp only [btSinkLoop, hloop, hevt]
          have h := still_handle (s := { s with evt := evt }) (H := H) answer msg
          rw [← hloop]
          exact ⟨h.ring, h.chunk, h.incoming, h.aside⟩
  | setinfo musicInfo =>
      simp only [btSinkLoop, hloop]
      exact ⟨rfl, rfl, rfl, aside_nil⟩
  | setClk musicInfo =>
      simp only [btSinkLoop, hloop]
      exact ⟨rfl, rfl, rfl, aside_i2s _⟩
  | stopped =>
      simp only [btSinkLoop, hloop]
      exact still_refl

/-- An idle writer has no chunk. -/
theorem OnItsWay.idle (h : OnItsWay s held) (hphase : s.i2s.phase = .idle) : held = s.ring := by
  obtain ⟨chunk, rfl, rfl | ⟨rfl, -⟩⟩ := h
  · simp [I2sWriter.chunk, hphase]
  · rfl

theorem moves_writer (hf : Formats H s) (hheld : OnItsWay s held) (turn : WriterTurn) :
    Moves held (writerTurn s turn) := by
  cases hphase : s.i2s.phase with
  | idle =>
      have hring := hheld.idle hphase
      have hempty : s.i2s.chunk = [] := by rw [I2sWriter.chunk, hphase]
      cases turn with
      | «open» answer =>
          simp only [writerTurn, hphase]
          exact Still.moves (s := s) ⟨rfl, hempty.symm, rfl, aside_i2s _⟩ hheld
      | data n =>
          cases hbytes : s.available n with
          | nil =>
              simp only [writerTurn, hphase, hbytes]
              exact still_refl.moves hheld
          | cons byte bytes =>
              have hprefix : byte :: bytes <+: s.ring := hbytes ▸ List.take_prefix _ _
              obtain ⟨rest, hrest⟩ := hprefix
              simp only [writerTurn, hphase, hbytes]
              refine ⟨[], held, .nil, by simp [i2sProcessInput], byte :: bytes, ?_, .inl ?_⟩
              · rw [hring, ← hrest]
                simp
              · rw [chunk_data]
      | timeout =>
          simp only [writerTurn, hphase]
          refine ⟨[], held, .nil, by simp [i2sProcessInput], [], hring, .inr ⟨rfl, ?_⟩⟩
          rw [chunk_timeout]
          exact fun b hb ↦ List.eq_of_mem_replicate hb
      | ended code calloc =>
          simp only [writerTurn, hphase, i2sProcessInput]
          refine ⟨[], held, ?_, by simp [(filterMap_i2sWrite _).1], hheld⟩
          rw [(filterMap_i2sWrite _).2]
          cases calloc with
          | true => exact .fillers fun block hblock ↦ mem_fill hblock
          | false => exact .nil
      | write bytesWritten =>
          simp only [writerTurn, hphase]
          exact still_refl.moves hheld
      | store =>
          simp only [writerTurn, hphase]
          exact still_refl.moves hheld
      | close calloc =>
          simp only [writerTurn, hphase]
          refine ⟨[], held, ?_, by simp [(filterMap_i2sWrite _).1], [], hring, .inl rfl⟩
          rw [(filterMap_i2sWrite _).2]
          refine .fillers fun block hblock b hb ↦ ?_
          rw [mem_i2sClose hblock b hb, hf.dac]
          rfl
  | filled rSize =>
      cases turn with
      | write bytesWritten =>
          have hch : s.i2s.el.info.channels ≠ 1 := by
            have hstereo : s.i2s.el.info.channels = 2 := hf.el.2.2
            omega
          simp only [writerTurn, hphase]
          have hchunk : s.i2s.chunk = bytesAt s.i2s.inBuffer 0 rSize := by
            rw [I2sWriter.chunk, hphase]
          rw [Moves, i2sProcessWrite_stereo hch hf.dac, ← hchunk]
          obtain ⟨chunk, rfl, hpiece⟩ := hheld
          refine ⟨chunk, s.ring, ?_, by simp [BtSinkOutput.taken?], [], rfl, .inl rfl⟩
          rcases hpiece with rfl | ⟨rfl, hsilent⟩
          · exact .single s.i2s.chunk
          · exact .filler hsilent .nil
      | _ =>
          simp only [writerTurn, hphase]
          exact still_refl.moves hheld
  | written info =>
      cases turn with
      | store =>
          simp only [writerTurn, hphase]
          have hempty : s.i2s.chunk = [] := by rw [I2sWriter.chunk, hphase]
          exact Still.moves (s := s) ⟨rfl, hempty.symm, rfl, aside_nil⟩ hheld
      | _ =>
          simp only [writerTurn, hphase]
          exact still_refl.moves hheld

/-- The writer has nothing to do with the callback. -/
theorem settles_writer (turn : WriterTurn) : Settles s.incoming (writerTurn s turn) := by
  have hwrites : ∀ blocks : List (List UInt8),
      (blocks.map BtSinkOutput.i2sWrite).filterMap BtSinkOutput.offered? = [] ∧
        (blocks.map BtSinkOutput.i2sWrite).filterMap BtSinkOutput.settled? = [] := by
    simp [List.filterMap_map, Function.comp_def, BtSinkOutput.offered?, BtSinkOutput.settled?]
  have hcalls : ∀ calls : List I2sCall,
      (calls.map BtSinkOutput.i2s).filterMap BtSinkOutput.offered? = [] ∧
        (calls.map BtSinkOutput.i2s).filterMap BtSinkOutput.settled? = [] := by
    simp [List.filterMap_map, Function.comp_def, BtSinkOutput.offered?, BtSinkOutput.settled?]
  cases turn <;> simp only [writerTurn] <;> split <;> simp [Settles, hwrites, hcalls]

/-- Between the data of the callback and the chunk of the writer, a turn loses nothing. -/
theorem turn_spec (hf : Formats H s) (hheld : OnItsWay s held) (turn : BtSinkTurn) :
    Moves held (btSinkTurn T H s turn) ∧ Settles s.incoming (btSinkTurn T H s turn) := by
  have hstill : ∀ o, Still s o → Moves held o ∧ Settles s.incoming o :=
    fun o h ↦ ⟨h.moves hheld, h.settles⟩
  cases turn with
  | a2d e =>
      cases hcalls : s.calls with
      | nil =>
          simp only [btSinkTurn, hcalls]
          exact hstill _ ⟨rfl, rfl, rfl, aside_nil⟩
      | cons c calls =>
          simp only [btSinkTurn, hcalls]
          exact hstill _ still_refl
  | avrc e => exact hstill _ (still_serve (.avrc e))
  | keyTimeOut => exact hstill _ (still_serve .keyTimeOut)
  | call room =>
      cases hcalls : s.calls with
      | nil =>
          simp only [btSinkTurn, hcalls]
          exact hstill _ still_refl
      | cons c calls =>
          simp only [btSinkTurn, hcalls]
          obtain ⟨hring, hi2s, hincoming⟩ :=
            make_kept (s := { s with calls := calls }) (H := H) room c
          exact hstill _ ⟨hring, congrArg I2sWriter.chunk hi2s, hincoming,
            fun x hx ↦ by rw [List.mem_singleton.mp hx]; trivial⟩
  | data bytes =>
      cases hincoming : s.incoming with
      | nil =>
          simp only [btSinkTurn, hincoming, btA2dSinkDataCb, hf.stream]
          split_ifs
          · refine ⟨⟨[], held, .nil, by simp [BtSinkOutput.taken?], hheld⟩, ?_⟩
            simp [Settles, BtSinkOutput.offered?, BtSinkOutput.settled?]
          · exact hincoming ▸ hstill _ still_refl
      | cons byte bytes =>
          simp only [btSinkTurn, hincoming]
          exact hincoming ▸ hstill _ still_refl
  | fill n =>
      obtain ⟨chunk, rfl, hpiece⟩ := hheld
      refine ⟨⟨[], chunk ++ (s.ring ++ s.incoming.take n), .nil, ?_, chunk, rfl, hpiece⟩, ?_⟩
      · simp [btSinkTurn, BtSinkOutput.taken?]
      · simp [btSinkTurn, Settles, BtSinkOutput.offered?, BtSinkOutput.settled?]
  | giveUp =>
      refine ⟨⟨[], held, .nil, by simp [btSinkTurn, BtSinkOutput.taken?], hheld⟩, ?_⟩
      simp [btSinkTurn, Settles, BtSinkOutput.offered?, BtSinkOutput.settled?]
  | post msg =>
      simp only [btSinkTurn]
      split_ifs <;> exact hstill _ ⟨rfl, rfl, rfl, aside_nil⟩
  | loop answer => exact hstill _ (still_loop answer)
  | i2s turn => exact ⟨moves_writer hf hheld turn, settles_writer turn⟩
  | _ => exact hstill _ ⟨rfl, rfl, rfl, aside_nil⟩

end Steps

/-! ## Runs -/

section Runs

theorem formats_init (H : Handles) (bt : BtState) (btInfo i2sInfo : AudioElementInfo)
    (inBuffer : Memory) : Formats H (btSinkInit H bt btInfo i2sInfo inBuffer) where
  stream := rfl
  dac := rfl
  type := rfl
  el := ⟨⟨44100, by decide, rfl⟩, rfl, rfl⟩
  copy := fun _ hinfo ↦ by cases hinfo
  loop := fun _ hnone ↦ by cases hnone
  evt := fun hmem ↦ (List.not_mem_nil hmem).elim
  calls := underway_nil

/-- Behind the ring buffer. -/
theorem btSink_conduit (T : ElementTask) (H : Handles) :
    Conduit (btSinkMachine T H) (Formats H) Silent BtSinkOutput.taken? BtSinkOutput.played?
      OnItsWay where
  inv := fun _ turn h ↦ h.turn turn
  step := fun _ turn _ h hheld ↦ (turn_spec h hheld turn).1

/-- Before the ring buffer, without any padding. -/
theorem callback_conduit (T : ElementTask) (H : Handles) :
    Conduit (btSinkMachine T H) (Formats H) (fun _ ↦ False) BtSinkOutput.offered?
      BtSinkOutput.settled? (fun s held ↦ held = s.incoming) where
  inv := fun _ turn h ↦ h.turn turn
  step := by
    rintro s turn held h rfl
    have hchunk : OnItsWay s (s.i2s.chunk ++ s.ring) := ⟨s.i2s.chunk, rfl, .inl rfl⟩
    exact ⟨_, _, .pieces _, (turn_spec h hchunk turn).2, rfl⟩

end Runs

end EspAudio.Playback
