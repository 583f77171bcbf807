import UfcRecomp.Recompiler.LocalRuns

/-!
# A check of the discipline

Whether every read of a local register is preceded by a write can be decided from what is known in
front of each line of a body: nothing at the entry, and at no line more than what was written on the
ways to it.
-/

namespace UfcRecomp.Recompiler

open UfcRecomp.Ppc UfcRecomp.Utils UfcRecomp.Analyze

variable {γ : Type} [DecidableEq γ] (names : RegisterNames) (isLocal : SpecialRegister → Bool)
  (grain : Member → γ) (body : TaggedBody) (known : Nat → List γ)

/-- Whether what is left of a line reads what was written and leaves what is known at the lines that
it leads to. -/
def checkWork (next : Nat) (insn : Insn) : Nat → List Work → List γ → Bool
  | 0, _, _ => false
  | _ + 1, [], written => (known next).all fun register => register ∈ written
  | fuel + 1, work :: left, written =>
    (work.reads.all fun member => !isLocal member.register || grain member ∈ written) &&
    ((work.continuations names insn).all fun more =>
      checkWork next insn fuel (more ++ left)
        (if work.calls then [] else written ++ work.writes.map grain)) &&
    match work with
    | .statement (.act (.goto address)) =>
      (labelPosition body address).all fun target =>
        (known target).all fun register => register ∈ written
    | _ => true

/-- Whether every line keeps to what is known. -/
def checkBody (fuel : Nat) : Bool :=
  (known 0).isEmpty && body.zipIdx.all fun entry =>
    checkWork names isLocal grain body known (entry.2 + 1) entry.1.1 fuel [.statement entry.1.2]
      (known entry.2)

variable {names isLocal grain body known}

theorem checked_of_path {fuel : Nat} (checked : checkBody names isLocal grain body known fuel = true)
    {next : Nat} {insn : Insn} {work : List Work} {written : Set γ}
    (path : Path names body grain next insn work written) :
    ∃ fuel list, (∀ register ∈ list, register ∈ written) ∧
      checkWork names isLocal grain body known next insn fuel work list = true := by
  rw [checkBody, Bool.and_eq_true, List.all_eq_true] at checked
  obtain ⟨nothing, lines⟩ := checked
  induction path with
  | entry =>
      refine ⟨1, [], by simp, ?_⟩
      rw [checkWork, List.isEmpty_iff.mp nothing]
      rfl
  | line prior here ih =>
      obtain ⟨fuel', list, among, check⟩ := ih
      cases fuel' with
      | zero => cases check
      | succ fuel' =>
          rw [checkWork, List.all_eq_true] at check
          refine ⟨fuel, known _, ?_, lines _ (List.mk_mem_zipIdx_iff_getElem?.mpr here)⟩
          intro register member
          exact among register (of_decide_eq_true (check register member))
  | @pass next insn work left written more prior goesOn ih =>
      obtain ⟨fuel', list, among, check⟩ := ih
      cases fuel' with
      | zero => cases check
      | succ fuel' =>
          unfold checkWork at check
          rw [Bool.and_eq_true, Bool.and_eq_true, List.all_eq_true, List.all_eq_true] at check
          refine ⟨fuel', _, ?_, check.1.2 more goesOn⟩
          split
          next => simp
          next =>
            intro register member
            rcases List.mem_append.mp member with old | new
            · exact .inl (among register old)
            · exact .inr (List.mem_map.mp new)
  | @goto next insn address left written target prior here ih =>
      obtain ⟨fuel', list, among, check⟩ := ih
      cases fuel' with
      | zero => cases check
      | succ fuel' =>
          rw [checkWork, Bool.and_eq_true, here] at check
          refine ⟨1, list, among, ?_⟩
          rw [checkWork]
          exact check.2

/-- A body that passes the check keeps to the discipline. -/
theorem disciplined_of_checkBody {fuel : Nat}
    (checked : checkBody names isLocal grain body known fuel = true) :
    Disciplined names isLocal grain body := by
  intro next insn work left written path member reads own
  obtain ⟨fuel', list, among, check⟩ := checked_of_path checked path
  cases fuel' with
  | zero => cases check
  | succ fuel' =>
      unfold checkWork at check
      rw [Bool.and_eq_true, Bool.and_eq_true, List.all_eq_true] at check
      have found := check.1.1 member reads
      rw [own] at found
      exact among _ (by simpa using found)

end UfcRecomp.Recompiler
