import Reindent.Proofs.Arguments.Operands

/-!
# Writing a command line

A command line can be written from flags and operands: the flags first, each followed by its value,
then the operands as they stand.  For a grammar that takes any number of operands, parsing such a
line gives the flags and the operands back exactly when the grammar reads every value and every
operand as an operand.  A grammar that ends in a command leaves everything behind the command to it,
as long as it can read it at all.
-/

namespace Reindent
namespace Arguments

/-- An option in front of the operands, with its value if it takes one. -/
structure Flag where
  spec : OptionSpec
  value : Option String := none
  deriving DecidableEq, Repr

namespace Flag

/-- The arguments of a flag. -/
def arguments (flag : Flag) : List String :=
  flag.spec.key :: flag.value.toList

/-- What a parse records for a flag. -/
def given (flag : Flag) : String × Given :=
  (flag.spec.key, flag.value.elim .on .text)

/-- A flag's own argument is read as its option. -/
def named (flag : Flag) : Argument where
  text := flag.spec.key
  reading := .option { spec := flag.spec, name := flag.spec.key.toList, attached := none }

/-- The grammar knows the flag by its name, and the flag has a value exactly if its option takes a
text. -/
structure Fits (g : Grammar) (flag : Flag) : Prop where
  reading_eq : readArgument g flag.spec.key.toList = .ok flag.named.reading
  key_ne : flag.spec.key ≠ endMark
  kind_eq : flag.spec.kind = if flag.value.isSome then .text else .switch

end Flag

/-- The command line of flags and operands. -/
def written (flags : List Flag) (operands : List String) : List String :=
  flags.flatMap Flag.arguments ++ operands

/-- The arguments of flags whose values are read as operands. -/
def readFlags (flags : List Flag) : List Argument :=
  flags.flatMap fun flag =>
    flag.named :: flag.value.toList.map fun text => { text, reading := .operand }

/-- The grammar reads every value and every operand as an operand. -/
def Grammar.Accepts (g : Grammar) (flags : List Flag) (operands : List String) : Prop :=
  (∀ flag ∈ flags, ∀ value ∈ flag.value, g.IsOperand value) ∧
    ∀ operand ∈ operands, g.IsOperand operand

theorem Grammar.accepts_cons_iff
    {g : Grammar} {flag : Flag} {flags : List Flag} {operands : List String} :
    g.Accepts (flag :: flags) operands ↔
      (∀ value ∈ flag.value, g.IsOperand value) ∧ g.Accepts flags operands := by
  rw [Grammar.Accepts, Grammar.Accepts, List.forall_mem_cons, and_assoc]

theorem length_le_length_readFlags (flags : List Flag) :
    flags.length ≤ (readFlags flags).length := by
  induction flags with
  | nil => exact Nat.le_refl 0
  | cons flag flags ih =>
      rw [readFlags, List.flatMap_cons, ← readFlags]
      simp only [List.length_cons, List.length_append]
      omega

section

variable {g : Grammar} {flags : List Flag} {operands : List String}

/-! ## Texts that are accepted come back -/

theorem readAll_written
    (hfits : ∀ flag ∈ flags, flag.Fits g) (haccepts : g.Accepts flags operands) :
    readAll g (written flags operands) =
      .ok (readFlags flags ++ operands.map fun text => { text, reading := .operand }) := by
  induction flags with
  | nil => exact readAll_of_isOperand haccepts.2
  | cons flag flags ih =>
      obtain ⟨hflag, hflags⟩ := List.forall_mem_cons.mp hfits
      obtain ⟨hvalue, haccepts⟩ := Grammar.accepts_cons_iff.mp haccepts
      have hrest := ih hflags haccepts
      rcases flag with ⟨spec, _ | value⟩
      · exact readAll_cons hflag.key_ne hflag.reading_eq hrest
      · have hoperand := hvalue value rfl
        exact readAll_cons hflag.key_ne hflag.reading_eq
          (readAll_cons hoperand.ne_endMark hoperand hrest)

theorem parseRest_readFlags
    (hfits : ∀ flag ∈ flags, flag.Fits g)
    (hvalues : ∀ flag ∈ flags, ∀ value ∈ flag.value, g.IsOperand value)
    (fuel : ℕ) (p : Parsed) (rest : List Argument) :
    parseRest g (fuel + flags.length) p (readFlags flags ++ rest) =
      parseRest g fuel { p with given := p.given ++ flags.map Flag.given } rest := by
  induction flags generalizing p with
  | nil => simp [readFlags]
  | cons flag flags ih =>
      obtain ⟨hflag, hflags⟩ := List.forall_mem_cons.mp hfits
      obtain ⟨hvalue, hothers⟩ := List.forall_mem_cons.mp hvalues
      rcases flag with ⟨spec, _ | value⟩
      · refine (parseRest_switch rfl (fuel + flags.length) p hflag.kind_eq
          (readFlags flags ++ rest)).trans ?_
        rw [ih hflags hothers]
        simp [Parsed.including, Flag.given]
      · refine (parseRest_text rfl (fuel + flags.length) p hflag.kind_eq rfl
          (hvalue value rfl).ne_endMark (readFlags flags ++ rest)).trans ?_
        rw [ih hflags hothers]
        simp [Parsed.including, Flag.given]

theorem parse_written
    (hmany : g.operands = .many) (hfits : ∀ flag ∈ flags, flag.Fits g)
    (haccepts : g.Accepts flags operands) :
    parse g (written flags operands) =
      .ok { given := flags.map Flag.given, operands := some operands } := by
  obtain ⟨spare, hspare⟩ := Nat.exists_eq_add_of_le (length_le_length_readFlags flags)
  have hfuel : (readFlags flags ++ operands.map fun text =>
      ({ text, reading := .operand } : Argument)).length + 1 =
        spare + operands.length + 1 + flags.length := by
    rw [List.length_append, List.length_map]
    omega
  have hrest : parseRest g (spare + operands.length + 1 + flags.length) {}
      (readFlags flags ++ operands.map fun text => { text, reading := .operand }) =
        .ok { given := flags.map Flag.given, operands := some operands } := by
    rw [parseRest_readFlags hfits haccepts.1, parseRest_operands hmany _ rfl]
    rfl
  rw [parse, readAll_written hfits haccepts]
  simp only [Except.mapError, bind, Except.bind, hfuel, hrest, hmany]
  rfl

/-! ## Nothing else comes back -/

theorem accepts_of_parseRest
    (hmany : g.operands = .many) (hfits : ∀ flag ∈ flags, flag.Fits g)
    {all : List Argument} (hall : readAll g (written flags operands) = .ok all)
    {fuel : ℕ} (hfuel : all.length < fuel) {p last : Parsed}
    (hlast : parseRest g fuel p all = .ok last) (hnone : p.operands = none)
    (hlength : operands.length ≤ (last.operands.getD []).length) :
    g.Accepts flags operands := by
  induction flags generalizing all fuel p with
  | nil =>
      have hle := length_operands_le hmany hlast
      have htexts : all.length = operands.length := by
        rw [← List.length_map fun a : Argument => a.text]
        exact congrArg List.length (texts_of_readAll hall)
      have hcount : operandCount all = all.length := by
        refine Nat.le_antisymm List.countP_le_length ?_
        rw [hnone] at hle
        simp only [Option.getD_none, List.length_nil] at hle
        omega
      refine ⟨nofun, isOperand_of_readAll hall fun a ha => ?_⟩
      exact of_decide_eq_true (List.countP_eq_length.mp hcount a ha)
  | cons flag flags ih =>
      obtain ⟨hflag, hflags⟩ := List.forall_mem_cons.mp hfits
      obtain ⟨fuel, rfl⟩ := Nat.exists_eq_add_one_of_ne_zero (Nat.ne_zero_of_lt hfuel)
      rw [Grammar.accepts_cons_iff]
      obtain ⟨reading, others, hreading, hothers, rfl⟩ :=
        exists_of_readAll_cons hflag.key_ne hall
      cases hflag.reading_eq.symm.trans hreading
      rcases flag with ⟨spec, _ | value⟩
      · rw [parseRest_switch rfl fuel p hflag.kind_eq] at hlast
        exact ⟨nofun, ih hflags hothers (Nat.lt_of_succ_lt_succ hfuel) hlast hnone⟩
      · by_cases hmark : value = endMark
        · -- the mark is never taken for a value
          subst hmark
          cases (readAll_endMark g _).symm.trans hothers
          exact absurd (reading_of_parseRest_text rfl fuel p hflag.kind_eq hlast) nofun
        · obtain ⟨reading, after, hvalue, hafter, rfl⟩ := exists_of_readAll_cons hmark hothers
          obtain rfl : reading = .operand :=
            reading_of_parseRest_text rfl fuel p hflag.kind_eq hlast
          rw [parseRest_text rfl fuel p hflag.kind_eq rfl hmark] at hlast
          refine ⟨?_, ih hflags hafter ?_ hlast hnone⟩
          · rintro _ ⟨⟩
            exact hvalue
          · simp only [List.length_cons] at hfuel
            omega

/-- Flags and operands come back from their command line exactly if they are accepted. -/
theorem parse_written_iff
    (hmany : g.operands = .many) (hfits : ∀ flag ∈ flags, flag.Fits g) :
    (∃ p, parse g (written flags operands) = .ok p ∧ p.operands.getD [] = operands) ↔
      g.Accepts flags operands := by
  constructor
  · rintro ⟨p, hparse, hoperands⟩
    obtain ⟨all, hall, hrest⟩ := exists_of_bind_eq_ok hparse
    obtain ⟨last, hlast, hdone⟩ := exists_of_bind_eq_ok hrest
    obtain rfl : last = p := by
      rw [hmany] at hdone
      cases hdone
      rfl
    exact accepts_of_parseRest hmany hfits (eq_ok_of_mapError hall) (Nat.lt_succ_self _) hlast rfl
      (Nat.le_of_eq (congrArg List.length hoperands).symm)
  · intro haccepts
    exact ⟨_, parse_written hmany hfits haccepts, rfl⟩

end

/-! ## A command and what follows it -/

section

variable {g : Grammar} {title name : String} {choices : List String}
  (hcommand : g.operands = .command title choices) (hname : name ∈ choices)
include hcommand hname

/-- A command takes everything after its name, options included. -/
theorem parseRest_command (fuel : ℕ) (rest : List Argument) :
    parseRest g (fuel + 2) {} ({ text := name, reading := .operand } :: rest) =
      .ok { operands := some (name :: texts rest) } := by
  have htake : takeOperands g ({ text := name, reading := .operand } :: rest) =
      some (rest.length + 1, name :: texts rest) := by
    simp [takeOperands, hcommand, Argument.isOption, texts]
  have hat : operandsAt g {} ({ text := name, reading := .operand } :: rest) =
      .ok ({ operands := some (name :: texts rest) }, rest.length + 1) := by
    simp [operandsAt, htake, hcommand, hname]
  by_cases hany : rest.any Argument.isOption = true
  · have hend : parseRest g (fuel + 1) { operands := some (name :: texts rest) } [] =
        .ok { operands := some (name :: texts rest) } :=
      parseRest_of_no_option g fuel _ rfl
    rw [parseRest]
    simp [hany, hat, Argument.isOption, bind, Except.bind, hend]
  · rw [parseRest_of_no_option g (fuel + 1) {} (by simpa [Argument.isOption] using hany), hat]
    simp [bind, Except.bind, pure, Except.pure, texts]

theorem parse_command_iff (hoperand : g.IsOperand name) {rest : List String} {p : Parsed} :
    parse g (name :: rest) = .ok p ↔
      (∃ all, readAll g rest = .ok all) ∧ p = { operands := some (name :: rest) } := by
  have hparse : ∀ all, readAll g rest = .ok all →
      parse g (name :: rest) = .ok { operands := some (name :: rest) } := by
    intro all hall
    rw [parse, readAll_cons hoperand.ne_endMark hoperand hall]
    simp only [Except.mapError, bind, Except.bind, List.length_cons,
      parseRest_command hcommand hname, hcommand, texts_of_readAll hall]
    rfl
  constructor
  · intro h
    obtain ⟨all, hall, -⟩ := exists_of_bind_eq_ok h
    obtain ⟨-, others, -, hothers, -⟩ :=
      exists_of_readAll_cons hoperand.ne_endMark (eq_ok_of_mapError hall)
    exact ⟨⟨others, hothers⟩, Except.ok.inj (h.symm.trans (hparse others hothers))⟩
  · rintro ⟨⟨all, hall⟩, rfl⟩
    exact hparse all hall

end

end Arguments
end Reindent
