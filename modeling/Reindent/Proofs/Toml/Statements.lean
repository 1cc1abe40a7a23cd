import Reindent.Proofs.Project.Faults
import Reindent.Toml.Document

/-!
# Reading a settings file line by line

What one line of a settings file does to what has been read before it: a field is set, or a table is
declared, and then the next line is read.  A document whose lines all do so is read to its end.
-/

namespace Reindent
namespace Toml

variable {p next : Progress} {t rest : Text} {names : Key} {fields : Table}

theorem statements_nil (fuel : Nat) (p : Progress) :
    statements fuel p [] = .ok p := by
  cases fuel <;> rfl

/-- After a statement there is nothing but a comment up to the end of its line, and the reading goes
on behind it. -/
theorem statements_of_line
    {c : Char} {left : Text} (hblank : isLineBlank c = false) (hbreak : c ≠ '\n')
    (h : statement p (c :: t) = .ok (next, rest))
    (hend : dropComment (dropBlanks rest) = .ok left) (hleft : left.head?.getD '\n' = '\n')
    (fuel : Nat) :
    statements (fuel + 1) p (c :: t) = statements fuel next left.tail := by
  have hfront : dropBlanks (c :: t) = c :: t := List.dropWhile_cons_of_neg (by simp [hblank])
  rw [statements, hfront]
  split
  · next heq => cases heq
  · next heq =>
    cases heq
    exact absurd rfl hbreak
  · simp only [bind, Except.bind, h, hend]
    cases left with
    | nil => exact (statements_nil fuel next).symm
    | cons d after =>
        obtain rfl : d = '\n' := hleft
        rfl

/-- A field is set where no earlier statement forbids it. -/
theorem statement_of_field
    {c : Char} {v : Value} {after : Text} (hbare : isBareKeyChar c = true)
    (hkey : keyAndSign (c :: t) = .ok (names, rest))
    (hvalue : value (4 * rest.length + 4) depthLimit rest = .ok (v, after))
    (hfree : (passed p.header names).find? (isLocked p.locks .declared) = none)
    (hopen : isLocked p.locks .closed (p.header ++ names.dropLast) = false)
    (hset : setField true (fun _ => .malformed) p.fields (p.header ++ names) v = .ok fields) :
    statement p (c :: t) = .ok ({ p with
      fields
      locks := p.locks ++ closing (p.header ++ names) v
      pending := p.pending ++ passed p.header names }, after) := by
  have hstatement : statement p (c :: t) = fieldStatement p (c :: t) := by
    unfold statement
    split
    · next heq =>
      cases heq
      exact absurd hbare (by decide)
    · next heq =>
      cases heq
      exact absurd hbare (by decide)
    · next heq =>
      cases heq
      exact absurd hbare (by decide)
    · next heq =>
      cases heq
      rw [hbare]
      rfl
    · next heq => cases heq
  rw [hstatement, fieldStatement, hkey]
  simp only [bind, Except.bind, hvalue, hfree, hopen, hset]
  rfl

/-- A table is declared where no earlier statement forbids it. -/
theorem statement_of_header
    {c : Char} (hsingle : c ≠ '[') (hkey : key (dropBlanks (c :: t)) = .ok (names, ']' :: rest))
    (hfree : isLocked p.settled.locks .declared names = false)
    (hopen : isLocked p.settled.locks .closed names = false)
    (hfields : p.fields.within true some names = some fields) :
    statement p ('[' :: c :: t) = .ok ({ p.settled with
      fields
      locks := p.settled.locks ++ [declaration names]
      header := names }, rest) := by
  have hstatement : statement p ('[' :: c :: t) = tableStatement p.settled (c :: t) := by
    unfold statement
    split
    · next heq =>
      cases heq
      exact absurd rfl hsingle
    · next heq =>
      cases heq
      rfl
    · next heq => cases heq
    · next hne _ heq =>
      cases heq
      exact (hne rfl).elim
    · next heq => cases heq
  have hsettled : p.settled.fields = p.fields := rfl
  rw [hstatement, tableStatement, hkey, hsettled]
  simp only [bind, Except.bind, hfree, hopen, hfields]
  rfl

theorem parse_of_statements
    (hreturns : dropReturns t = t) (h : statements (t.length + 1) {} t = .ok p) :
    parse t = .ok p.fields := by
  rw [parse, hreturns]
  exact bind_eq_ok h rfl

end Toml
end Reindent
