import Mathlib.Data.String.Basic
import SessionAttributes.Proofs.Json.RoundTrip
import SessionAttributes.Proofs.Session.Mirror
import SessionAttributes.Proofs.World.Tally
import SessionAttributes.Proofs.World.Simulation
import SessionAttributes.Simulation

namespace SessionAttributes.Simulation

section Names

/-- The digits of a number tell which number it is. -/
theorem digits_read (n : Nat) : Nat.ofDigitChars 10 (toString n).toList 0 = n := by
  rw [Nat.toString_eq_ofList_toDigits, String.toList_ofList, Nat.ofDigitChars_ten_toDigits]

theorem padded_read (n : Nat) : Nat.ofDigitChars 10 (padded n).toList 0 = n := by
  simp only [padded, String.toList_append, String.toList_ofList, Nat.ofDigitChars_append,
    Nat.ofDigitChars_replicate_zero, Nat.mul_zero]
  exact digits_read n

theorem padded_injective : Function.Injective padded := by
  intro n k h
  rw [← padded_read n, h, padded_read k]

theorem sessionName_injective : Function.Injective sessionName := by
  intro n k h
  exact padded_injective ((String.append_right_inj _).mp h)

theorem attributeName_injective : Function.Injective attributeName := by
  intro n k h
  have hdigits : toString n = toString k := (String.append_right_inj _).mp h
  rw [← digits_read n, hdigits, digits_read k]

theorem sessionNames_nodup (count : Nat) : (sessionNames count).Nodup :=
  List.nodup_range.map sessionName_injective

@[simp] theorem sessionNames_length (count : Nat) : (sessionNames count).length = count := by
  simp [sessionNames]

/-- One session out of so many is evicted, from the first one on. -/
theorem evictedNames_length (count every : Nat) : (evictedNames count every).length =
    if every = 0 then 0 else (count + every - 1) / every := by
  unfold evictedNames
  split
  · rfl
  · rename_i hpos
    rw [List.length_map, ← List.countP_eq_length_filter]
    induction count with
    | zero =>
      have hless : 0 + every - 1 < every := by omega
      rw [Nat.div_eq_of_lt hless]
      rfl
    | succ count ih =>
      have hnext : count + 1 + every - 1 = (count + every - 1) + 1 := by omega
      have hlast : every ∣ count + every - 1 + 1 ↔ count % every = 0 := by
        rw [show count + every - 1 + 1 = count + every by omega, Nat.dvd_add_self_right,
          Nat.dvd_iff_mod_eq_zero]
      rw [List.range_succ, List.countP_append, ih, hnext, Nat.succ_div]
      by_cases h : count % every = 0 <;> simp [h, hlast]

end Names

section Values

theorem attributeValue_canonical {n : Nat} : (attributeValue n).Canonical := by
  unfold attributeValue
  split
  · trivial
  · exact ⟨List.pairwise_singleton _ _, ⟨trivial, trivial, trivial⟩, trivial⟩

theorem attributeValue_depth (n : Nat) : (attributeValue n).depth ≤ Json.depthLimit := by
  unfold attributeValue
  split
  · exact Nat.zero_le _
  · simp only [Json.depth, Json.depthMembers, Json.depthItems, Json.ofNat, Json.depthLimit]
    decide

theorem attributeValue_faithful (n : Nat) : Faithful Frame.marshaller (attributeValue n) := by
  refine ⟨_, _, rfl, Frame.read_write attributeValue_canonical (attributeValue_depth n), ?_⟩
  exact (Json.equal_iff _ attributeValue_canonical _).mpr rfl

theorem garbage_unreadable : ∃ fault, Frame.marshaller.read garbage = .error fault := by
  have hnone : (Frame.read garbage).toOption = none := by decide +kernel
  have hread : Frame.marshaller.read = Frame.read := rfl
  rw [hread]
  generalize Frame.read garbage = r at hnone
  cases r with
  | error fault => exact ⟨fault, rfl⟩
  | ok value => cases hnone

end Values

section Moments

variable (schedule : Schedule) (draw : Nat → AttributeId)

theorem pass_keeps (w : SimulatedWorld) : w.Keeps (pass schedule draw w) := by
  have hcalm := Surroundings.quiet_calm (σ := Nat) Frame.marshaller draw
  let steps := ((w.factory? factory).map fun f => schedule w.scene f.executor).getD []
  intro hs
  obtain ⟨hs', hp⟩ := World.Keeps.foldl (World.workerStep_keeps hcalm factory) steps w hs
  exact ⟨⟨hs'.metadata, hs'.names, hs'.attributes⟩, hp⟩

theorem pass_lasting {I : SimulatedWorld → Prop} (hI : World.Lasting I) {w : SimulatedWorld}
    (h : I w) : I (pass schedule draw w) :=
  hI.rest _ _ _ (hI.workerSteps (Surroundings.quiet_observes _ draw I) factory _ h)

theorem surroundings_calm : (surroundings schedule draw).Calm Frame.marshaller where
  before _ w := pass_keeps schedule draw w
  after _ w := pass_keeps schedule draw w
  encode _ w := ⟨rfl, .refl w⟩
  decode _ w := ⟨rfl, .refl w⟩
  hear _ _ w := .refl w
  callback _ w := .refl w

theorem surroundings_reliable : (surroundings schedule draw).Reliable := fun _ _ => rfl

theorem surroundings_observes {I : SimulatedWorld → Prop} (hI : World.Lasting I) :
    (surroundings schedule draw).Observes I where
  before _ _ h := pass_lasting schedule draw hI h
  after _ _ h := pass_lasting schedule draw hI h
  encode _ _ h := h
  decode _ _ h := h
  hear _ _ _ h := h
  callback _ _ h := h

theorem surroundings_discreet : (surroundings schedule draw).Discreet where
  before _ w := pass_lasting schedule draw (World.deeds_lasting w.deeds) rfl
  after _ w := pass_lasting schedule draw (World.deeds_lasting w.deeds) rfl
  encode _ _ := rfl
  decode _ _ := rfl
  hear _ _ _ := rfl
  callback _ _ := rfl

end Moments
end SessionAttributes.Simulation
