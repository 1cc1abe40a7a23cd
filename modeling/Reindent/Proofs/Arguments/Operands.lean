import Mathlib.Data.List.TakeWhile
import Reindent.Arguments.Parse
import Reindent.Proofs.Project.Faults

/-!
# Operands on a command line

Whether an argument is an operand depends on the grammar and on its own text: one that does not
start with a hyphen always is, and the mark that ends the options never is.  Arguments that are all
operands are taken as they stand.  Conversely a parse never takes more operands than there are
arguments read as operands, so if it takes as many as there are arguments, all of them are.
-/

namespace Reindent
namespace Arguments

/-! ## Reading single arguments -/

/-- The grammar reads a text as an operand. -/
def Grammar.IsOperand (g : Grammar) (text : String) : Prop :=
  readArgument g text.toList = .ok .operand

instance (g : Grammar) (text : String) : Decidable (g.IsOperand text) :=
  inferInstanceAs (Decidable (_ = _))

theorem Grammar.isOperand_of_head
    (g : Grammar) {text : String} (h : text.toList.head? ≠ some '-') :
    g.IsOperand text := by
  unfold Grammar.IsOperand readArgument
  split
  · next heq =>
    rw [heq] at h
    exact absurd rfl h
  · rfl

theorem Grammar.not_isOperand_endMark (g : Grammar) : ¬ g.IsOperand endMark := by
  intro h
  have hsplit : splitEquals ['-', '-'] = (['-', '-'], none) := rfl
  rw [Grammar.IsOperand, show endMark.toList = ['-', '-'] from rfl, readArgument] at h
  split at h
  · cases h
  · rw [if_neg (by decide), readHyphened, hsplit] at h
    dsimp only at h
    split at h
    · cases h
    · exact absurd h (by decide)
    · cases h

theorem Grammar.IsOperand.ne_endMark
    {g : Grammar} {text : String} (h : g.IsOperand text) :
    text ≠ endMark := by
  rintro rfl
  exact g.not_isOperand_endMark h

/-! ## Reading all arguments -/

section

variable {g : Grammar} {text : String} {arguments : List String} {all : List Argument}

theorem readAll_cons
    (hmark : text ≠ endMark) {reading : Reading}
    (hreading : readArgument g text.toList = .ok reading) (hall : readAll g arguments = .ok all) :
    readAll g (text :: arguments) = .ok ({ text, reading } :: all) := by
  rw [readAll, if_neg hmark, hreading, hall]
  rfl

theorem exists_of_readAll_cons
    (hmark : text ≠ endMark) (h : readAll g (text :: arguments) = .ok all) :
    ∃ reading others, readArgument g text.toList = .ok reading ∧
      readAll g arguments = .ok others ∧ all = { text, reading } :: others := by
  rw [readAll, if_neg hmark] at h
  obtain ⟨reading, hreading, h⟩ := exists_of_bind_eq_ok h
  obtain ⟨others, hothers, h⟩ := exists_of_bind_eq_ok h
  cases h
  exact ⟨reading, others, hreading, hothers, rfl⟩

theorem readAll_endMark (g : Grammar) (arguments : List String) :
    readAll g (endMark :: arguments) = .ok ({ text := endMark, reading := .endOfOptions } ::
      arguments.map fun text => { text, reading := .operand }) := by
  rw [readAll, if_pos rfl]

theorem texts_of_readAll (h : readAll g arguments = .ok all) : texts all = arguments := by
  induction arguments generalizing all with
  | nil =>
      cases h
      rfl
  | cons text rest ih =>
      by_cases hmark : text = endMark
      · rw [hmark, readAll_endMark] at h
        cases h
        simp [texts, Function.comp_def, hmark]
      · obtain ⟨reading, others, -, hothers, rfl⟩ := exists_of_readAll_cons hmark h
        rw [texts, List.map_cons, ← texts, ih hothers]

theorem readAll_of_isOperand (h : ∀ text ∈ arguments, g.IsOperand text) :
    readAll g arguments = .ok (arguments.map fun text => { text, reading := .operand }) := by
  induction arguments with
  | nil => rfl
  | cons text rest ih =>
      obtain ⟨htext, hrest⟩ := List.forall_mem_cons.mp h
      exact readAll_cons htext.ne_endMark htext (ih hrest)

theorem isOperand_of_readAll
    (h : readAll g arguments = .ok all) (hall : ∀ a ∈ all, a.reading = .operand) :
    ∀ text ∈ arguments, g.IsOperand text := by
  induction arguments generalizing all with
  | nil => exact nofun
  | cons text rest ih =>
      by_cases hmark : text = endMark
      · rw [hmark, readAll_endMark] at h
        cases h
        exact absurd (hall _ List.mem_cons_self) nofun
      · obtain ⟨reading, others, hreading, hothers, rfl⟩ := exists_of_readAll_cons hmark h
        obtain ⟨hfirst, hrest⟩ := List.forall_mem_cons.mp hall
        refine List.forall_mem_cons.mpr ⟨?_, ih hothers hrest⟩
        rw [Grammar.IsOperand, hreading]
        exact congrArg Except.ok hfirst

/-- Arguments are read together if each of them can be read. -/
theorem exists_readAll
    (h : ∀ text ∈ arguments, ∃ reading, readArgument g text.toList = .ok reading) :
    ∃ all, readAll g arguments = .ok all := by
  induction arguments with
  | nil => exact ⟨[], rfl⟩
  | cons text rest ih =>
      obtain ⟨⟨reading, hreading⟩, hrest⟩ := List.forall_mem_cons.mp h
      obtain ⟨others, hothers⟩ := ih hrest
      by_cases hmark : text = endMark
      · exact ⟨_, hmark ▸ readAll_endMark g rest⟩
      · exact ⟨_, readAll_cons hmark hreading hothers⟩

theorem exists_reading_of_readAll
    (h : readAll g arguments = .ok all) (hmark : endMark ∉ arguments) :
    ∀ text ∈ arguments, ∃ reading, readArgument g text.toList = .ok reading := by
  induction arguments generalizing all with
  | nil => exact nofun
  | cons text rest ih =>
      obtain ⟨hne, hrest⟩ := List.ne_and_not_mem_of_not_mem_cons hmark
      obtain ⟨reading, others, hreading, hothers, -⟩ := exists_of_readAll_cons hne.symm h
      exact List.forall_mem_cons.mpr ⟨⟨reading, hreading⟩, ih hothers hrest⟩

end

/-! ## Options in front -/

/-- The parse with one more option given. -/
def Parsed.including (p : Parsed) (key : String) (given : Given) : Parsed :=
  { p with given := p.given ++ [(key, given)] }

section

variable {g : Grammar} {a : Argument} {spec : OptionSpec} {name : Text}
  (hreading : a.reading = .option { spec, name, attached := none }) (fuel : ℕ) (p : Parsed)
include hreading

theorem isOption_of_reading : a.isOption = true := by
  rw [Argument.isOption, hreading]

theorem parseRest_of_optionAt
    {after : List Argument} {next : Parsed} {count : ℕ}
    (h : optionAt g p a after = .ok (next, count + 1)) :
    parseRest g (fuel + 1) p (a :: after) = parseRest g fuel next (after.drop count) := by
  rw [parseRest, List.any_cons, isOption_of_reading hreading]
  simp [h, bind, Except.bind]

theorem parseRest_switch (hkind : spec.kind = .switch) (after : List Argument) :
    parseRest g (fuel + 1) p (a :: after) = parseRest g fuel (p.including spec.key .on) after := by
  have hstep : optionAt g p a after = .ok (p.including spec.key .on, 0 + 1) := by
    simp [optionAt, hreading, expand, hkind, OptionKind.takesValue, act, Parsed.including, bind,
      Except.bind, pure, Except.pure, Except.mapError]
  exact parseRest_of_optionAt hreading fuel p hstep

theorem parseRest_text
    (hkind : spec.kind = .text) {value : Argument} (hvalue : value.reading = .operand)
    (hmark : value.text ≠ endMark) (after : List Argument) :
    parseRest g (fuel + 1) p (a :: value :: after) =
      parseRest g fuel (p.including spec.key (.text value.text)) after := by
  have hstep : optionAt g p a (value :: after) =
      .ok (p.including spec.key (.text value.text), 1 + 1) := by
    simp [optionAt, hreading, expand, hkind, OptionKind.takesValue, act, Parsed.including, bind,
      Except.bind, pure, Except.pure, Except.mapError, hvalue, hmark]
  exact parseRest_of_optionAt hreading fuel p hstep

/-- An option with a value takes nothing but an operand for it. -/
theorem reading_of_parseRest_text
    (hkind : spec.kind = .text) {value : Argument} {after : List Argument} {last : Parsed}
    (h : parseRest g (fuel + 1) p (a :: value :: after) = .ok last) :
    value.reading = .operand := by
  by_contra hvalue
  have hstep : optionAt g p a (value :: after) = .error (.misuse g (.valueMissing spec.title)) := by
    simp [optionAt, hreading, expand, hkind, OptionKind.takesValue, bind,
      Except.bind, Except.mapError, hvalue]
    rfl
  rw [parseRest, List.any_cons, isOption_of_reading hreading] at h
  simp [hstep, bind, Except.bind] at h

end

/-! ## Operands at the end -/

theorem parseRest_of_no_option
    (g : Grammar) (fuel : ℕ) (p : Parsed) {rest : List Argument}
    (h : rest.any Argument.isOption = false) :
    parseRest g (fuel + 1) p rest = do
      let (next, count) ← operandsAt g p rest
      return { next with leftover := next.leftover ++ texts (rest.drop count) } := by
  rw [parseRest.eq_def]
  simp only [h, Bool.not_false, if_pos]

/-- The unbroken run of arguments at the front that are no options. -/
def plainRun (rest : List Argument) : List Argument :=
  rest.takeWhile fun a => !a.isOption

theorem takeOperands_of_many {g : Grammar} (hmany : g.operands = .many) (rest : List Argument) :
    takeOperands g rest = some ((plainRun rest).length,
      texts ((plainRun rest).filter fun a => a.reading = .operand)) := by
  have hrun : ∀ a ∈ plainRun rest, a.isOption = false := by
    intro a ha
    simpa using List.mem_takeWhile_imp ha
  have hfilter : (plainRun rest).filter (fun a => !decide (a.reading = .endOfOptions)) =
      (plainRun rest).filter fun a => a.reading = .operand := by
    refine List.filter_congr fun a ha => ?_
    have hplain := hrun a ha
    rw [Argument.isOption] at hplain
    cases hreading : a.reading <;> simp [hreading] at hplain ⊢
  rw [← hfilter, takeOperands, hmany]
  rfl

/-- The parse of operands takes them as they stand. -/
theorem parseRest_operands
    {g : Grammar} (hmany : g.operands = .many) (fuel : ℕ) {p : Parsed} (hnone : p.operands = none)
    (operands : List String) :
    parseRest g (fuel + 1) p (operands.map fun text => { text, reading := .operand }) =
      .ok { p with operands := some operands } := by
  have hany : (operands.map fun text => ({ text, reading := .operand } : Argument)).any
      Argument.isOption = false := by
    simp [Function.comp_def, Argument.isOption]
  have htake : takeOperands g (operands.map fun text => { text, reading := .operand }) =
      some (operands.length, operands) := by
    have hrun : plainRun (operands.map fun text => { text, reading := .operand }) =
        operands.map fun text => { text, reading := .operand } :=
      List.takeWhile_eq_self_iff.mpr (by simp [Argument.isOption])
    rw [takeOperands_of_many hmany, hrun]
    simp [texts, List.filter_map, Function.comp_def]
  rw [parseRest_of_no_option g fuel p hany]
  simp [operandsAt, hnone, htake, hmany, bind, Except.bind, pure, Except.pure, texts]

/-! ## How many operands are taken -/

theorem operands_of_act
    {g : Grammar} {p next : Parsed} {action : Action} (h : act g p action = .ok next) :
    next.operands = p.operands := by
  unfold act at h
  dsimp only at h
  split at h
  · cases h
  · cases h
  · cases h
    rfl
  · cases h
    rfl
  · split at h
    · cases h
      rfl
    · split at h
      · cases h
        rfl
      · cases h

theorem operands_of_foldlM
    {g : Grammar} {p next : Parsed} {actions : List Action}
    (h : actions.foldlM (act g) p = .ok next) :
    next.operands = p.operands := by
  induction actions generalizing p with
  | nil =>
      cases h
      rfl
  | cons action actions ih =>
      rw [List.foldlM_cons] at h
      obtain ⟨middle, hmiddle, h⟩ := exists_of_bind_eq_ok h
      rw [ih h, operands_of_act hmiddle]

theorem operands_of_optionAt
    {g : Grammar} {p next : Parsed} {a : Argument} {after : List Argument} {count : ℕ}
    (h : optionAt g p a after = .ok (next, count)) :
    next.operands = p.operands := by
  unfold optionAt at h
  split at h
  · obtain ⟨expansion, -, h⟩ := exists_of_bind_eq_ok h
    dsimp only at h
    split at h
    · obtain ⟨taken, -, h⟩ := exists_of_bind_eq_ok h
      obtain ⟨done, hdone, h⟩ := exists_of_bind_eq_ok h
      cases h
      exact operands_of_foldlM hdone
    · split at h
      · obtain ⟨taken, -, h⟩ := exists_of_bind_eq_ok h
        obtain ⟨done, hdone, h⟩ := exists_of_bind_eq_ok h
        cases h
        exact operands_of_foldlM hdone
      · cases h
    · cases h
  · cases h
    rfl

/-- How many arguments are read as operands. -/
def operandCount (arguments : List Argument) : ℕ :=
  arguments.countP fun a => a.reading = .operand

theorem operandCount_drop_le (count : ℕ) (arguments : List Argument) :
    operandCount (arguments.drop count) ≤ operandCount arguments :=
  (List.drop_sublist count arguments).countP_le

theorem operandsAt_le
    {g : Grammar} (hmany : g.operands = .many) {p next : Parsed} {rest : List Argument} {count : ℕ}
    (h : operandsAt g p rest = .ok (next, count)) :
    (next.operands.getD []).length + operandCount (rest.drop count) ≤
      (p.operands.getD []).length + operandCount rest := by
  unfold operandsAt at h
  split at h
  · cases h
    exact Nat.le_refl _
  · next hnone =>
    rw [takeOperands_of_many hmany, hmany] at h
    cases h
    obtain ⟨after, hrest⟩ : plainRun rest <+: rest := List.takeWhile_prefix _
    have hdrop := @List.drop_left _ (plainRun rest) after
    have hcount : operandCount (plainRun rest ++ after) =
        operandCount (plainRun rest) + operandCount after := List.countP_append
    rw [hrest] at hdrop hcount
    rw [hdrop, hcount, hnone]
    simp [texts, operandCount, List.countP_eq_length_filter]

/-- A parse takes no more operands than there are arguments read as operands. -/
theorem length_operands_le
    {g : Grammar} (hmany : g.operands = .many) {fuel : ℕ} {p last : Parsed} {rest : List Argument}
    (h : parseRest g fuel p rest = .ok last) :
    (last.operands.getD []).length ≤ (p.operands.getD []).length + operandCount rest := by
  induction fuel generalizing p rest with
  | zero =>
      cases h
      exact Nat.le_add_right _ _
  | succ fuel ih =>
      rw [parseRest.eq_def] at h
      dsimp only at h
      split at h
      · obtain ⟨⟨next, count⟩, hnext, h⟩ := exists_of_bind_eq_ok h
        cases h
        have htaken := operandsAt_le hmany hnext
        exact Nat.le_trans (Nat.le_add_right _ _) htaken
      · split at h
        · cases h
          exact Nat.le_add_right _ _
        · next a after _ =>
          split at h
          · obtain ⟨⟨next, count⟩, hnext, h⟩ := exists_of_bind_eq_ok h
            have hle := ih h
            rw [operands_of_optionAt hnext] at hle
            exact Nat.le_trans hle (Nat.add_le_add_left (operandCount_drop_le _ _) _)
          · obtain ⟨⟨next, count⟩, hnext, h⟩ := exists_of_bind_eq_ok h
            have htaken := operandsAt_le hmany hnext
            dsimp only at h
            split at h
            · exact Nat.le_trans (ih h) htaken
            · next hzero =>
              have hle := ih h
              dsimp only at hle
              have hdrop := operandCount_drop_le
                ((a :: after).takeWhile fun b => !b.isOption).length (a :: after)
              rw [Nat.eq_zero_of_not_pos hzero, List.drop_zero] at htaken
              omega

end Arguments
end Reindent
