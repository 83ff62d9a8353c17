import Grove.Proofs.Grammar.Text

/-!
# Rule text line by line

A line of rule text is read without regard to the others: it is malformed, or it says nothing, or it
gives productions to a symbol. What a text says is what its lines say, one after the other, up to
the first malformed one. So a text that goes on after a line feed says what its first part says and
then what its second part says, and its error is that of the first part, if there is one.
-/

set_option autoImplicit false

namespace Grove

open Text

/-- The error as it is reported when more lines come before. -/
def RuleError.below (count : Nat) (error : RuleError) : RuleError :=
  { error with line := count + error.line }

namespace RuleText

/-- What a line says: productions of a symbol, or nothing. -/
def readLine (line : List Char) : Except RuleProblem (Option (Symbol × List Production)) :=
  if saysNothing (trim line) then .ok none else (parseRule (trim line)).map some

/-- What lines say, the first of them having the given number. -/
def readLines (number : Nat) :
    List (List Char) → Except RuleError (List (Symbol × List Production))
  | [] => .ok []
  | line :: rest =>
      match readLine line with
      | .error problem => .error ⟨number, problem⟩
      | .ok said => (readLines (number + 1) rest).map (said.toList ++ ·)

private theorem parseLines_eq (number : Nat) (rules : Rules) (pieces : List (List Char)) :
    parseLines number rules pieces = (readLines number pieces).map rules.appendAll := by
  induction pieces generalizing number rules with
  | nil => rfl
  | cons line rest ih =>
      unfold parseLines readLines readLine
      cases heard : saysNothing (trim line) with
      | true =>
          rw [if_pos rfl, if_pos rfl, ih]
          cases readLines (number + 1) rest <;> rfl
      | false =>
          rw [if_neg Bool.false_ne_true, if_neg Bool.false_ne_true]
          cases parseRule (trim line) with
          | error problem => rfl
          | ok said =>
              dsimp only
              rw [ih]
              cases readLines (number + 1) rest <;> rfl

theorem readLines_append (number : Nat) (first second : List (List Char)) :
    readLines number (first ++ second) =
      match readLines number first with
      | .error error => .error error
      | .ok said => (readLines (number + first.length) second).map (said ++ ·) := by
  induction first generalizing number with
  | nil =>
      change readLines number second = (readLines number second).map ([] ++ ·)
      cases readLines number second <;> rfl
  | cons line first ih =>
      have later : number + (line :: first).length = number + 1 + first.length := by
        rw [List.length_cons]
        omega
      rw [List.cons_append, readLines, readLines, later]
      cases readLine line with
      | error problem => rfl
      | ok said =>
          dsimp only
          rw [ih]
          cases readLines (number + 1) first with
          | error error => rfl
          | ok others =>
              cases readLines (number + 1 + first.length) second with
              | error error => rfl
              | ok more => exact congrArg Except.ok (List.append_assoc _ _ _).symm

/-- What lines say does not depend on where they stand, but for the number in an error. -/
theorem readLines_add (count number : Nat) (pieces : List (List Char)) :
    readLines (count + number) pieces = (readLines number pieces).mapError (·.below count) := by
  induction pieces generalizing number with
  | nil => rfl
  | cons line rest ih =>
      rw [readLines, readLines, Nat.add_assoc, ih]
      cases readLine line with
      | error problem => rfl
      | ok said => cases readLines (number + 1) rest <;> rfl

/-- The error of the first malformed line, the first of all lines having the given number. -/
def FirstProblem (number : Nat) (pieces : List (List Char)) (error : RuleError) : Prop :=
  ∃ before line after, pieces = before ++ line :: after ∧ error.line = number + before.length ∧
    readLine line = .error error.problem ∧ ∀ earlier ∈ before, (readLine earlier).isOk = true

private theorem readLines_eq_error_iff (number : Nat) (pieces : List (List Char))
    (error : RuleError) :
    readLines number pieces = .error error ↔ FirstProblem number pieces error := by
  induction pieces generalizing number with
  | nil =>
      constructor
      · intro failed
        cases failed
      · rintro ⟨before, line, after, split, -⟩
        cases before <;> cases split
  | cons line rest ih =>
      rw [readLines]
      cases read : readLine line with
      | error problem =>
          constructor
          · intro failed
            cases failed
            exact ⟨[], line, rest, rfl, rfl, read, nofun⟩
          · rintro ⟨before, bad, after, split, number, malformed, fine⟩
            cases before with
            | nil =>
                cases split
                obtain ⟨errorLine, errorProblem⟩ := error
                cases number
                cases read.symm.trans malformed
                rfl
            | cons first before =>
                cases split
                have heard := fine line List.mem_cons_self
                rw [read] at heard
                cases heard
      | ok said =>
          have others : (readLines (number + 1) rest).map (said.toList ++ ·) = .error error ↔
              readLines (number + 1) rest = .error error := by
            cases readLines (number + 1) rest <;> simp [Except.map]
          refine others.trans ((ih (number + 1)).trans ?_)
          constructor
          · rintro ⟨before, bad, after, rfl, number, malformed, fine⟩
            refine ⟨line :: before, bad, after, rfl, ?_, malformed, ?_⟩
            · rw [number, List.length_cons]
              omega
            · exact List.forall_mem_cons.mpr ⟨by rw [read]; rfl, fine⟩
          · rintro ⟨before, bad, after, split, number, malformed, fine⟩
            cases before with
            | nil =>
                cases split
                cases read.symm.trans malformed
            | cons first before =>
                cases split
                refine ⟨before, bad, after, rfl, ?_, malformed, (List.forall_mem_cons.mp fine).2⟩
                rw [number, List.length_cons]
                omega

end RuleText

namespace Rules

theorem parse_eq (text : List Char) :
    parse text = (RuleText.readLines 1 (lines text)).map empty.appendAll :=
  RuleText.parseLines_eq 1 empty (lines text)

private theorem parse_eq_error_iff (text : List Char) (error : RuleError) :
    parse text = .error error ↔ RuleText.FirstProblem 1 (lines text) error := by
  rw [← RuleText.readLines_eq_error_iff, parse_eq]
  cases RuleText.readLines 1 (lines text) <;> simp [Except.map]

/-- Two texts on top of each other say what the first one says and then what the second one says.
An error of the first is the error of both; an error of the second is reported that many lines
further down. So the error is always that of the first malformed line. -/
theorem parse_joined (first second : List Char) :
    parse (first ++ '\n' :: second) =
        (match parse first, parse second with
        | .error error, _ => .error error
        | .ok _, .error error => .error (error.below (first.count '\n' + 1))
        | .ok before, .ok after => .ok (before.join after)) ∧
      (∀ (before after : Rules) (symbol : Symbol), (before.join after).alternatives symbol =
        before.alternatives symbol ++ after.alternatives symbol) ∧
      ∀ (text : List Char) (error : RuleError),
        parse text = .error error ↔ RuleText.FirstProblem 1 (lines text) error := by
  refine ⟨?_, alternatives_join, parse_eq_error_iff⟩
  have second_below := RuleText.readLines_add (first.count '\n' + 1) 1 (lines second)
  rw [parse_eq, lines_append_feed, RuleText.readLines_append, length_lines, Nat.add_comm 1,
    second_below, parse_eq, parse_eq]
  cases RuleText.readLines 1 (lines first) with
  | error error => rfl
  | ok said =>
      cases RuleText.readLines 1 (lines second) with
      | error error => rfl
      | ok more => exact congrArg Except.ok (appendAll_append said more)

example : parse "F -> F\r\n# none\n\nFF -> F\nX".toList = .error ⟨4, .notSingleSymbol⟩ :=
  rfl

end Rules

end Grove
