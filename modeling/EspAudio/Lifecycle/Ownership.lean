import EspAudio.Lifecycle.Startup

/-!
# The stream and the peripheral of the service

The objects that the two create functions hand out are destroyed by other
components, which run a callback of the service on that occasion. The objects
alive are followed next to the fields of the record that should designate them.
-/

namespace EspAudio.Lifecycle

open Adf Reactive Service

inductive OwnerCall where
  | start (config : BluetoothServiceCfg) (r : StartResults)
  | createStream (created : Option AudioElement)
  | createPeriph (created : Option ℕ)
  -- `audio_element_deinit` and the end of the peripheral set run `_bt_stream_destroy` and
  -- `_bt_periph_destroy`.
  | destroyStream (el : AudioElement)
  | destroyPeriph (periph : EspPeriph)
  | destroy

structure Owner where
  gBtService : Option BluetoothService
  streams : List AudioElement
  periphs : List EspPeriph
  -- Uses of the record when there is none.
  strays : ℕ

def unowned : Owner := ⟨none, [], [], 0⟩

/-- A function of the service that expects the record to be there. -/
def Owner.use (s : Owner) (f : BluetoothService → Owner) : Owner :=
  match s.gBtService with
  | some svc => f svc
  | none => { s with strays := s.strays + 1 }

def ownerStep (s : Owner) : OwnerCall → Owner
  | .start config r => { s with gBtService := (bluetoothServiceStart config r s.gBtService).1 }
  | .createStream created => s.use fun svc ↦
      let (svc', el) := bluetoothServiceCreateStream svc created
      { s with gBtService := some svc', streams := el.toList ++ s.streams }
  | .createPeriph created => s.use fun svc ↦
      let (svc', periph) := bluetoothServiceCreatePeriph svc created
      { s with gBtService := some svc', periphs := periph.toList ++ s.periphs }
  | .destroyStream el => s.use fun svc ↦
      { s with gBtService := some (btStreamDestroy svc), streams := s.streams.erase el }
  | .destroyPeriph periph => s.use fun svc ↦
      { s with gBtService := some (btPeriphDestroy svc).1, periphs := s.periphs.erase periph }
  | .destroy => { s with gBtService := (bluetoothServiceDestroy s.gBtService).1 }

def ownerMachine : Machine Owner OwnerCall Empty := ⟨fun s e ↦ (ownerStep s e, [])⟩

/-- Objects are created while the service exists, and destroyed while they are alive. -/
def Permitted (s : Owner) : OwnerCall → Prop
  | .createStream _ | .createPeriph _ => s.gBtService.isSome = true
  | .destroyStream el => el ∈ s.streams
  | .destroyPeriph periph => periph ∈ s.periphs
  | _ => True

instance (s : Owner) : ∀ e, Decidable (Permitted s e)
  | .createStream _ | .createPeriph _ => inferInstanceAs (Decidable (_ = _))
  | .destroyStream _ | .destroyPeriph _ => inferInstanceAs (Decidable (_ ∈ _))
  | .start _ _ | .destroy => .isTrue trivial

/-- The fields of the record designate the objects alive; without a record there are none. -/
structure Owns (s : Owner) : Prop where
  streams : s.streams = (s.gBtService.bind BluetoothService.stream).toList
  periphs : s.periphs = (s.gBtService.bind BluetoothService.periph).toList
  strays : s.strays = 0

section Steps

variable {s : Owner}

theorem owns_iff {svc : BluetoothService} (hg : s.gBtService = some svc) :
    Owns s ↔ s.streams = svc.stream.toList ∧ s.periphs = svc.periph.toList ∧ s.strays = 0 := by
  constructor
  · rintro ⟨hstreams, hperiphs, hstrays⟩
    rw [hg] at hstreams hperiphs
    exact ⟨hstreams, hperiphs, hstrays⟩
  · rintro ⟨hstreams, hperiphs, hstrays⟩
    exact ⟨by rw [hg]; exact hstreams, by rw [hg]; exact hperiphs, hstrays⟩

theorem Owns.isSome_of_stream (hs : Owns s) {el : AudioElement} (hel : el ∈ s.streams) :
    ∃ svc, s.gBtService = some svc ∧ svc.stream = some el := by
  rw [hs.streams, Option.mem_toList, Option.bind_eq_some_iff] at hel
  exact hel

theorem Owns.isSome_of_periph (hs : Owns s) {periph : EspPeriph} (hp : periph ∈ s.periphs) :
    ∃ svc, s.gBtService = some svc ∧ svc.periph = some periph := by
  rw [hs.periphs, Option.mem_toList, Option.bind_eq_some_iff] at hp
  exact hp

theorem owns_start (hs : Owns s) (config : BluetoothServiceCfg) (r : StartResults) :
    Owns (ownerStep s (.start config r)) := by
  cases hg : s.gBtService with
  | some svc =>
      have hsame : ownerStep s (.start config r) = s := by
        cases s
        simp_all [ownerStep, bluetoothServiceStart]
      rwa [hsame]
  | none =>
      have hstreams : s.streams = [] := by simpa [hg] using hs.streams
      have hperiphs : s.periphs = [] := by simpa [hg] using hs.periphs
      cases hnew : (bluetoothServiceStart config r none).1 with
      | none => exact ⟨by simp [ownerStep, hg, hnew, hstreams],
          by simp [ownerStep, hg, hnew, hperiphs], hs.strays⟩
      | some svc =>
          obtain ⟨hstream, hperiph⟩ := start_bare hnew
          exact ⟨by simp [ownerStep, hg, hnew, hstreams, hstream],
            by simp [ownerStep, hg, hnew, hperiphs, hperiph], hs.strays⟩

theorem owns_createStream (hs : Owns s) {svc : BluetoothService} (hg : s.gBtService = some svc)
    (created : Option AudioElement) : Owns (ownerStep s (.createStream created)) := by
  obtain ⟨hstreams, hperiphs, hstrays⟩ := (owns_iff hg).mp hs
  obtain ⟨hstream, hperiph⟩ := createStream_spec svc created
  simp only [ownerStep, Owner.use, hg]
  exact (owns_iff rfl).mpr ⟨by rw [hstream, hstreams], by rw [hperiph, hperiphs], hstrays⟩

theorem owns_createPeriph (hs : Owns s) {svc : BluetoothService} (hg : s.gBtService = some svc)
    (created : Option ℕ) : Owns (ownerStep s (.createPeriph created)) := by
  obtain ⟨hstreams, hperiphs, hstrays⟩ := (owns_iff hg).mp hs
  obtain ⟨hperiph, hstream⟩ := createPeriph_spec svc created
  simp only [ownerStep, Owner.use, hg]
  exact (owns_iff rfl).mpr ⟨by rw [hstream, hstreams], by rw [hperiph, hperiphs], hstrays⟩

theorem owns_destroyStream (hs : Owns s) {el : AudioElement} (hel : el ∈ s.streams) :
    Owns (ownerStep s (.destroyStream el)) := by
  obtain ⟨svc, hg, hstream⟩ := hs.isSome_of_stream hel
  obtain ⟨hstreams, hperiphs, hstrays⟩ := (owns_iff hg).mp hs
  simp only [ownerStep, Owner.use, hg]
  apply (owns_iff rfl).mpr
  exact ⟨by simp [hstreams, hstream, btStreamDestroy], hperiphs, hstrays⟩

theorem owns_destroyPeriph (hs : Owns s) {periph : EspPeriph} (hp : periph ∈ s.periphs) :
    Owns (ownerStep s (.destroyPeriph periph)) := by
  obtain ⟨svc, hg, hperiph⟩ := hs.isSome_of_periph hp
  obtain ⟨hstreams, hperiphs, hstrays⟩ := (owns_iff hg).mp hs
  simp only [ownerStep, Owner.use, hg]
  apply (owns_iff rfl).mpr
  exact ⟨hstreams, by simp [hperiphs, hperiph, btPeriphDestroy], hstrays⟩

/-- A destroy is refused exactly while one of the objects is alive. -/
theorem Owns.destroy_eq (hs : Owns s) :
    bluetoothServiceDestroy s.gBtService =
      if s.streams = [] ∧ s.periphs = [] then
        (none, (bluetoothServiceDestroy s.gBtService).2.1, espOk)
      else (s.gBtService, [], espFail) := by
  rw [hs.streams, hs.periphs]
  cases hg : s.gBtService with
  | none => simp [bluetoothServiceDestroy]
  | some svc =>
      cases hstream : svc.stream <;> cases hperiph : svc.periph <;>
        simp [bluetoothServiceDestroy, hstream, hperiph]

theorem owns_destroy (hs : Owns s) : Owns (ownerStep s .destroy) := by
  rw [ownerStep, hs.destroy_eq]
  split_ifs with hnone
  · exact ⟨hnone.1, hnone.2, hs.strays⟩
  · exact hs

theorem owns_step (hs : Owns s) {e : OwnerCall} (he : Permitted s e) : Owns (ownerStep s e) := by
  cases e with
  | start config r => exact owns_start hs config r
  | createStream created =>
      obtain ⟨svc, hg⟩ := Option.isSome_iff_exists.mp he
      exact owns_createStream hs hg created
  | createPeriph created =>
      obtain ⟨svc, hg⟩ := Option.isSome_iff_exists.mp he
      exact owns_createPeriph hs hg created
  | destroyStream el => exact owns_destroyStream hs he
  | destroyPeriph periph => exact owns_destroyPeriph hs he
  | destroy => exact owns_destroy hs

theorem owns_run {es : List OwnerCall} (hes : ownerMachine.Throughout Permitted unowned es) :
    Owns (ownerMachine.run unowned es) := by
  apply Machine.run_inv_of_throughout Owns _ _ hes
  · intro s e hs he
    exact owns_step hs he
  · exact ⟨rfl, rfl, rfl⟩

theorem Owns.record (hs : Owns s) {svc : BluetoothService} (hg : s.gBtService = some svc) :
    svc.stream = s.streams.head? ∧ svc.periph = s.periphs.head? := by
  obtain ⟨hstreams, hperiphs, -⟩ := (owns_iff hg).mp hs
  rw [hstreams, hperiphs, Option.head?_toList, Option.head?_toList]
  exact ⟨rfl, rfl⟩

theorem Owns.length_le (hs : Owns s) : s.streams.length ≤ 1 ∧ s.periphs.length ≤ 1 := by
  rw [hs.streams, hs.periphs]
  constructor
  · cases s.gBtService.bind BluetoothService.stream <;> simp
  · cases s.gBtService.bind BluetoothService.periph <;> simp

theorem Owns.createStream_refused (hs : Owns s) {svc : BluetoothService}
    (hg : s.gBtService = some svc) (hne : s.streams ≠ []) (created : Option AudioElement) :
    bluetoothServiceCreateStream svc created = (svc, none) := by
  obtain ⟨el, rest, hcons⟩ := List.exists_cons_of_ne_nil hne
  have hstream : svc.stream = some el := by rw [(hs.record hg).1, hcons, List.head?_cons]
  simp [bluetoothServiceCreateStream, hstream]

theorem Owns.createPeriph_refused (hs : Owns s) {svc : BluetoothService}
    (hg : s.gBtService = some svc) (hne : s.periphs ≠ []) (created : Option ℕ) :
    bluetoothServiceCreatePeriph svc created = (svc, none) := by
  obtain ⟨periph, rest, hcons⟩ := List.exists_cons_of_ne_nil hne
  have hperiph : svc.periph = some periph := by rw [(hs.record hg).2, hcons, List.head?_cons]
  simp [bluetoothServiceCreatePeriph, hperiph]

theorem Owns.destroy_refused (hs : Owns s) (h : s.streams ≠ [] ∨ s.periphs ≠ []) :
    bluetoothServiceDestroy s.gBtService = (s.gBtService, [], espFail) := by
  have halive : ¬ (s.streams = [] ∧ s.periphs = []) := by tauto
  rw [hs.destroy_eq, if_neg halive]

theorem Owns.destroy_fails_iff (hs : Owns s) :
    (bluetoothServiceDestroy s.gBtService).2.2 = espFail ↔ s.streams ≠ [] ∨ s.periphs ≠ [] := by
  constructor
  · intro hfail
    by_contra hnone
    rw [hs.destroy_eq, if_pos (by tauto)] at hfail
    simp [espOk, espFail] at hfail
  · intro h
    rw [hs.destroy_refused h]

theorem Owns.isSome (hs : Owns s) (h : s.streams ≠ [] ∨ s.periphs ≠ []) :
    s.gBtService.isSome = true := by
  rcases h with hne | hne
  · obtain ⟨el, hel⟩ := List.exists_mem_of_ne_nil _ hne
    obtain ⟨svc, hg, -⟩ := hs.isSome_of_stream hel
    simp [hg]
  · obtain ⟨periph, hp⟩ := List.exists_mem_of_ne_nil _ hne
    obtain ⟨svc, hg, -⟩ := hs.isSome_of_periph hp
    simp [hg]

end Steps

end EspAudio.Lifecycle
