import UfcRecomp.Recompiler.Config

/-!
# The names of functions

A function is named after the register of a helper or after its address. The address
can be recovered from the name.
-/

namespace UfcRecomp.Recompiler

open UfcRecomp.Utils UfcRecomp.Lib

/-- What names start with. -/
def namePrefixes : List String :=
  ["sub_", "__restgprlr_", "__savegprlr_", "__restfpr_", "__savefpr_", "__restvmx_", "__savevmx_"]

/-- No name can start in two ways. -/
theorem eq_of_append_eq {left right leftRest rightRest : String} (leftMember : left ∈ namePrefixes)
    (rightMember : right ∈ namePrefixes) (same : left ++ leftRest = right ++ rightRest) :
    left = right ∧ leftRest = rightRest := by
  have apart : ∀ left ∈ namePrefixes, ∀ right ∈ namePrefixes,
      left.toList <+: right.toList → left = right := by decide
  have characters : left.toList ++ leftRest.toList = right.toList ++ rightRest.toList := by
    rw [← String.toList_append, same, String.toList_append]
  have startsLeft : left.toList <+: right.toList ++ rightRest.toList :=
    ⟨leftRest.toList, characters⟩
  have startsRight : right.toList <+: right.toList ++ rightRest.toList := List.prefix_append _ _
  have samePrefix : left = right := by
    rcases List.prefix_or_prefix_of_prefix startsLeft startsRight with shorter | longer
    · exact apart left leftMember right rightMember shorter
    · exact (apart right rightMember left leftMember longer).symm
  subst samePrefix
  exact ⟨rfl, String.toList_inj.mp (List.append_cancel_left characters)⟩

/-- The shape of a helper. -/
theorem mem_helper {name : String} {address i first stride last rest : Nat} {symbol : Symbol} :
    symbol ∈ helper name address i first stride last rest ↔ address ≠ 0 ∧
      symbol = ⟨name ++ Radix.decimal i, address + (i - first) * stride,
        (last - i) * stride + rest, .symbolFunction⟩ := by
  unfold helper
  split_ifs with configured
  · simp [configured]
  · simp at configured
    simp [configured]

/-- The name of a helper ends with its register. -/
theorem name_of_mem_helpersOf {config : RecompilerConfig} {i : Nat} {symbol : Symbol}
    (member : symbol ∈ config.helpersOf i) :
    ∃ start ∈ namePrefixes, start ≠ "sub_" ∧ symbol.name = start ++ Radix.decimal i := by
  simp only [RecompilerConfig.helpersOf, List.mem_append, List.mem_ite_nil_right,
    mem_helper] at member
  rcases member with ⟨-, ((((⟨-, rfl⟩ | ⟨-, rfl⟩) | ⟨-, rfl⟩) | ⟨-, rfl⟩) | ⟨-, rfl⟩) | ⟨-, rfl⟩⟩ |
    ⟨-, ⟨-, rfl⟩ | ⟨-, rfl⟩⟩ <;> exact ⟨_, by decide, by decide, rfl⟩

theorem type_of_mem_helpersOf {config : RecompilerConfig} {i : Nat} {symbol : Symbol}
    (member : symbol ∈ config.helpersOf i) : symbol.type = .symbolFunction := by
  simp only [RecompilerConfig.helpersOf, List.mem_append, List.mem_ite_nil_right,
    mem_helper] at member
  rcases member with ⟨-, ((((⟨-, rfl⟩ | ⟨-, rfl⟩) | ⟨-, rfl⟩) | ⟨-, rfl⟩) | ⟨-, rfl⟩) | ⟨-, rfl⟩⟩ |
    ⟨-, ⟨-, rfl⟩ | ⟨-, rfl⟩⟩ <;> rfl

/-- The helpers of one register have different names. -/
theorem eq_of_name_helpersOf {config : RecompilerConfig} {i : Nat} {left right : Symbol}
    (leftMember : left ∈ config.helpersOf i) (rightMember : right ∈ config.helpersOf i)
    (same : left.name = right.name) : left = right := by
  simp only [RecompilerConfig.helpersOf, List.mem_append, List.mem_ite_nil_right,
    mem_helper] at leftMember rightMember
  rcases leftMember with ⟨low, ((((⟨-, rfl⟩ | ⟨-, rfl⟩) | ⟨-, rfl⟩) | ⟨-, rfl⟩) | ⟨-, rfl⟩) |
      ⟨-, rfl⟩⟩ | ⟨high, ⟨-, rfl⟩ | ⟨-, rfl⟩⟩ <;>
    rcases rightMember with ⟨low, ((((⟨-, rfl⟩ | ⟨-, rfl⟩) | ⟨-, rfl⟩) | ⟨-, rfl⟩) | ⟨-, rfl⟩) |
      ⟨-, rfl⟩⟩ | ⟨high, ⟨-, rfl⟩ | ⟨-, rfl⟩⟩ <;>
    first
    | rfl
    | exact absurd (eq_of_append_eq (by decide) (by decide) same).1 (by decide)
    | omega

/-- The names that function discovery gives. -/
def Named (config : RecompilerConfig) (symbol : Symbol) : Prop :=
  symbol ∈ config.helpers ∨ symbol.name = subName symbol.address

/-- The configured functions are named by discovery. -/
theorem named_of_configured {config : RecompilerConfig} {symbol : Symbol}
    (member : symbol ∈ config.configured) :
    Named config symbol ∧ symbol.type = .symbolFunction := by
  rcases List.mem_append.mp member with helper | explicit
  · obtain ⟨i, -, among⟩ := List.mem_flatMap.mp helper
    exact ⟨.inl helper, type_of_mem_helpersOf among⟩
  · obtain ⟨entry, -, rfl⟩ := List.mem_map.mp explicit
    exact ⟨.inr rfl, rfl⟩

/-- Every name starts in one of the ways. -/
theorem Named.starts {config : RecompilerConfig} {symbol : Symbol} (named : Named config symbol) :
    ∃ start ∈ namePrefixes, ∃ rest, symbol.name = start ++ rest := by
  rcases named with helper | sub
  · obtain ⟨i, -, member⟩ := List.mem_flatMap.mp helper
    obtain ⟨start, among, -, name⟩ := name_of_mem_helpersOf member
    exact ⟨start, among, _, name⟩
  · exact ⟨"sub_", by decide, _, sub⟩

/-- The name of a function determines its address. -/
theorem Named.address_eq {config : RecompilerConfig} {left right : Symbol}
    (leftNamed : Named config left) (rightNamed : Named config right)
    (same : left.name = right.name) : left.address = right.address := by
  have helperOrSub : ∀ {helper other : Symbol}, helper ∈ config.helpers →
      other.name = subName other.address → helper.name ≠ other.name := by
    intro helper other member isSub same
    obtain ⟨i, -, member⟩ := List.mem_flatMap.mp member
    obtain ⟨start, among, notSub, name⟩ := name_of_mem_helpersOf member
    rw [name, isSub] at same
    exact notSub (eq_of_append_eq among (by decide) same).1
  rcases leftNamed with leftHelper | leftSub
  · rcases rightNamed with rightHelper | rightSub
    · obtain ⟨i, -, leftMember⟩ := List.mem_flatMap.mp leftHelper
      obtain ⟨j, -, rightMember⟩ := List.mem_flatMap.mp rightHelper
      obtain ⟨leftStart, leftAmong, -, leftName⟩ := name_of_mem_helpersOf leftMember
      obtain ⟨rightStart, rightAmong, -, rightName⟩ := name_of_mem_helpersOf rightMember
      have numbers := (eq_of_append_eq leftAmong rightAmong
        (leftName.symm.trans (same.trans rightName))).2
      obtain rfl := Radix.text_injective (by decide) (by decide) numbers
      rw [eq_of_name_helpersOf leftMember rightMember same]
    · exact absurd same (helperOrSub leftHelper rightSub)
  · rcases rightNamed with rightHelper | rightSub
    · exact absurd same.symm (helperOrSub rightHelper leftSub)
    · rw [leftSub, rightSub] at same
      exact Radix.text_injective (by decide) (by decide)
        (eq_of_append_eq (by decide) (by decide) same).2

end UfcRecomp.Recompiler
