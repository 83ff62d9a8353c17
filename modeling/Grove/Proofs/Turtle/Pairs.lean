import Grove.Proofs.Turtle.Brackets

/-!
# Pairs of brackets

Two brackets of a word belong together when what stands between them is balanced. A turtle that has
walked such a pair is back where it was before it. Brackets without a partner, and symbols that mean
nothing to a turtle, can be deleted from a word: the turtle then saves fewer cursors, but it goes
back to the same ones and draws the same tree from the same random words.

Which brackets have a partner is a matter of the whole word, while the turtle has only seen a part
of it. The two meet in the list of the brackets that a part leaves open: the saved cursors follow
this list, and a closing bracket belongs to the first of it.
-/

set_option autoImplicit false

namespace Grove

namespace Word

/-! ## Balanced words -/

private theorem openAfter?_append (count : Nat) (first second : Word) :
    openAfter? count (first ++ second) = (openAfter? count first).bind (openAfter? · second) := by
  simp [openAfter?]

theorem Balanced.nil : Balanced [] :=
  balanced_iff.mpr rfl

theorem Balanced.append {first second : Word} (before : first.Balanced) (after : second.Balanced) :
    Balanced (first ++ second) := by
  rw [balanced_iff, openAfter?_append, before.openAfter? 0]
  exact after.openAfter? 0

theorem Balanced.concat {word : Word} (balanced : word.Balanced) {symbol : Symbol}
    (opening : symbol ≠ '[') (closing : symbol ≠ ']') : Balanced (word ++ [symbol]) := by
  refine balanced.append (balanced_iff.mpr ?_)
  simp [Word.openAfter?, Symbol.openAfter?]

theorem Balanced.enclose {word : Word} (balanced : word.Balanced) :
    Balanced ('[' :: word ++ [']']) := by
  have inside : Word.openAfter? 1 word = some 1 := balanced.openAfter? 1
  rw [balanced_iff, openAfter?_append]
  change ((Word.openAfter? 1 word).bind (Word.openAfter? · [']'])) = some 0
  rw [inside]
  rfl

/-! ## Open places -/

/-- A stack after one more symbol: an opening bracket pushes an item, a closing one drops one. -/
def restack {β : Type} (item : β) (stack : List β) (symbol : Symbol) : List β :=
  match symbol with
  | '[' => item :: stack
  | ']' => stack.tail
  | _ => stack

section Stack

variable {β : Type} {symbol : Symbol}

private theorem restack_other (opening : symbol ≠ '[') (closing : symbol ≠ ']') (item : β)
    (stack : List β) : restack item stack symbol = stack := by
  unfold restack
  split
  · exact absurd rfl opening
  · exact absurd rfl closing
  · rfl

theorem map_restack {γ : Type} (change : β → γ) (item : β) (stack : List β) (symbol : Symbol) :
    (restack item stack symbol).map change = restack (change item) (stack.map change) symbol := by
  unfold restack
  split
  · rfl
  · exact List.map_tail
  · rfl

/-- What is pushed lies on top of what was there before, as long as that is not dropped. -/
theorem restack_append (kept : List β) {added : List β} {count : Nat}
    (opened : symbol.openAfter? added.length = some count) (item : β) :
    ∃ left, restack item (added ++ kept) symbol = left ++ kept ∧ left.length = count := by
  by_cases opening : symbol = '['
  · subst opening
    exact ⟨item :: added, rfl, Option.some.inj opened⟩
  by_cases closing : symbol = ']'
  · subst closing
    have closes := Symbol.openAfter?_eq_some_iff.mp opened
    cases added with
    | nil => simp at closes
    | cons last added => exact ⟨added, rfl, by simpa using closes.symm⟩
  · rw [restack_other opening closing]
    exact ⟨added, rfl, by simpa [Symbol.openAfter?, opening, closing] using opened⟩

end Stack

/-- The places that are open after a word that begins at `start`. -/
def opensFrom (opens : List Nat) (start : Nat) : Word → List Nat
  | [] => opens
  | symbol :: word => opensFrom (restack start opens symbol) (start + 1) word

/-- The places of the brackets that a word leaves open, the last one first. -/
def openPlaces (word : Word) : List Nat :=
  opensFrom [] 0 word

private theorem opensFrom_append (opens : List Nat) (start : Nat) (first second : Word) :
    opensFrom opens start (first ++ second) =
      opensFrom (opensFrom opens start first) (start + first.length) second := by
  induction first generalizing opens start with
  | nil => rfl
  | cons symbol first induction =>
      simp only [List.cons_append, opensFrom, induction, List.length_cons]
      congr 1
      omega

private theorem openPlaces_concat (word : Word) (symbol : Symbol) :
    openPlaces (word ++ [symbol]) = restack word.length word.openPlaces symbol := by
  rw [openPlaces, opensFrom_append, Nat.zero_add]
  rfl

/-- What a word opens lies on top of what was open before, as long as it does not close that. -/
theorem opensFrom_of_openAfter? {word : Word} (added opens : List Nat) (start : Nat) {count : Nat}
    (opened : word.openAfter? added.length = some count) :
    ∃ left, opensFrom (added ++ opens) start word = left ++ opens ∧ left.length = count := by
  induction word generalizing added start with
  | nil => exact ⟨added, rfl, Option.some.inj opened⟩
  | cons symbol word induction =>
      obtain ⟨between, first, rest⟩ := Option.bind_eq_some_iff.mp opened
      obtain ⟨less, stacked, length⟩ := restack_append opens first start
      rw [opensFrom, stacked]
      exact induction less (start + 1) (length ▸ rest)

theorem Balanced.opensFrom {word : Word} (balanced : word.Balanced) (opens : List Nat)
    (start : Nat) : opensFrom opens start word = opens := by
  obtain ⟨left, reached, length⟩ :=
    opensFrom_of_openAfter? [] opens start (balanced.openAfter? 0)
  rwa [List.eq_nil_of_length_eq_zero length] at reached

/-! ## Pairs -/

/-- Two places of a word hold brackets that belong together. -/
def Pairs (word : Word) (opening closing : Nat) : Prop :=
  ∃ before inside after : Word, word = before ++ '[' :: inside ++ ']' :: after ∧ inside.Balanced ∧
    opening = before.length ∧ closing = before.length + 1 + inside.length

/-- Of the brackets that a word leaves open, the last one is at `place`: all that it opens after
that it also closes. -/
def OpenAt (word : Word) (place : Nat) (rest : List Nat) : Prop :=
  ∃ before inside : Word, word = before ++ '[' :: inside ∧ inside.Balanced ∧
    place = before.length ∧ before.openPlaces = rest

private theorem openAt_of_openPlaces {word : Word} {place : Nat} {rest : List Nat}
    (opened : word.openPlaces = place :: rest) : word.OpenAt place rest := by
  rcases List.eq_nil_or_concat word with rfl | ⟨shorter, symbol, same⟩
  · cases opened
  rw [List.concat_eq_append] at same
  subst same
  rw [openPlaces_concat] at opened
  by_cases opening : symbol = '['
  · subst opening
    cases opened
    exact ⟨shorter, [], rfl, .nil, rfl, rfl⟩
  by_cases closing : symbol = ']'
  · subst closing
    cases known : openPlaces shorter with
    | nil => simp [restack, known] at opened
    | cons last others =>
        obtain rfl : others = place :: rest := by simpa [restack, known] using opened
        obtain ⟨before, inside, split, balanced, -, outer⟩ := openAt_of_openPlaces known
        -- The pair that has been closed is part of what follows the open bracket before it.
        obtain ⟨outermost, between, same, first, place, open_⟩ := openAt_of_openPlaces outer
        refine ⟨outermost, between ++ ('[' :: inside ++ [']']), ?_, first.append balanced.enclose,
          place, open_⟩
        simp [split, same]
  · rw [restack_other opening closing] at opened
    obtain ⟨before, inside, split, balanced, place, outer⟩ := openAt_of_openPlaces opened
    exact ⟨before, inside ++ [symbol], by simp [split], balanced.concat opening closing, place,
      outer⟩
termination_by word.length
decreasing_by all_goals simp_all

theorem split_at {word : Word} {place : Nat} {symbol : Symbol}
    (found : word[place]? = some symbol) :
    word = word.take place ++ symbol :: word.drop (place + 1) := by
  obtain ⟨inside, rfl⟩ := List.getElem?_eq_some_iff.mp found
  rw [List.getElem_cons_drop, List.take_append_drop]

/-- A closing bracket belongs to the last one that is open there. -/
theorem pairs_of_openPlaces {word : Word} {opening closing : Nat} {rest : List Nat}
    (closes : word[closing]? = some ']')
    (opened : openPlaces (word.take closing) = opening :: rest) : word.Pairs opening closing := by
  obtain ⟨before, inside, split, balanced, place, -⟩ := openAt_of_openPlaces opened
  have bounded := (List.getElem?_eq_some_iff.mp closes).1
  refine ⟨before, inside, word.drop (closing + 1), ?_, balanced, place, ?_⟩
  · rw [← split, ← split_at closes]
  · have length := congrArg List.length split
    simp at length
    omega

/-- The part of a word before the second bracket of a pair. -/
theorem Pairs.exists_part {word : Word} {opening closing : Nat}
    (pairs : word.Pairs opening closing) :
    ∃ before inside after part : Word, part = before ++ ['['] ++ inside ∧ inside.Balanced ∧
      word = part ++ ']' :: after ∧ opening = before.length ∧ closing = part.length := by
  obtain ⟨before, inside, after, rfl, balanced, rfl, rfl⟩ := pairs
  exact ⟨before, inside, after, _, rfl, balanced, by simp, rfl, by simp; omega⟩

theorem Pairs.closes {word : Word} {opening closing : Nat} (pairs : word.Pairs opening closing) :
    word[closing]? = some ']' := by
  obtain ⟨before, inside, after, part, -, -, rfl, -, rfl⟩ := pairs.exists_part
  simp

theorem Pairs.opens {word : Word} {opening closing : Nat} (pairs : word.Pairs opening closing) :
    word[opening]? = some '[' := by
  obtain ⟨before, inside, after, rfl, -, rfl, -⟩ := pairs
  simp

theorem Pairs.openPlaces_ne_nil {word : Word} {opening closing : Nat}
    (pairs : word.Pairs opening closing) : openPlaces (word.take closing) ≠ [] := by
  obtain ⟨before, inside, after, part, rfl, balanced, rfl, -, rfl⟩ := pairs.exists_part
  rw [List.take_left, openPlaces, opensFrom_append, balanced.opensFrom]
  change openPlaces (before ++ ['[']) ≠ []
  rw [openPlaces_concat]
  exact List.cons_ne_nil _ _

/-- A bracket that has a partner. -/
def Matched (word : Word) (place : Nat) : Prop :=
  ∃ other, word.Pairs place other ∨ word.Pairs other place

/-- A closing bracket has a partner if a bracket is open there. -/
theorem matched_iff_of_closes {word : Word} {place : Nat} (closes : word[place]? = some ']') :
    word.Matched place ↔ openPlaces (word.take place) ≠ [] := by
  constructor
  · rintro ⟨other, opens | pairs⟩
    · simp [opens.opens] at closes
    · exact pairs.openPlaces_ne_nil
  · intro opened
    obtain ⟨opening, rest, found⟩ := List.exists_cons_of_ne_nil opened
    exact ⟨opening, .inr (pairs_of_openPlaces closes found)⟩

theorem pairs_iff {word : Word} {opening closing : Nat} :
    word.Pairs opening closing ↔ opening < closing ∧ word[opening]? = some '[' ∧
      word[closing]? = some ']' ∧ Balanced ((word.take closing).drop (opening + 1)) := by
  constructor
  · intro pairs
    have opens := pairs.opens
    have closes := pairs.closes
    obtain ⟨before, inside, after, part, rfl, balanced, rfl, rfl, rfl⟩ := pairs.exists_part
    refine ⟨by simp, opens, closes, ?_⟩
    have length : before.length + 1 = (before ++ ['[']).length := by simp
    rwa [List.take_left, length, List.drop_left]
  · rintro ⟨before, opens, closes, balanced⟩
    have bounded := (List.getElem?_eq_some_iff.mp closes).1
    have inner : (word.take closing)[opening]? = some '[' := by
      rw [List.getElem?_take_of_lt before, opens]
    refine ⟨(word.take closing).take opening, _, word.drop (closing + 1), ?_, balanced, ?_, ?_⟩
    · rw [← split_at inner, ← split_at closes]
    · simp
      omega
    · simp
      omega

instance (word : Word) (opening closing : Nat) : Decidable (word.Pairs opening closing) :=
  decidable_of_iff _ pairs_iff.symm

private theorem matched_iff {word : Word} {place : Nat} :
    word.Matched place ↔
      ∃ other < word.length, word.Pairs place other ∨ word.Pairs other place := by
  constructor
  · rintro ⟨other, pairs⟩
    refine ⟨other, ?_, pairs⟩
    rcases pairs with pairs | pairs
    · exact (List.getElem?_eq_some_iff.mp pairs.closes).1
    · exact (List.getElem?_eq_some_iff.mp pairs.opens).1
  · rintro ⟨other, -, pairs⟩
    exact ⟨other, pairs⟩

instance (word : Word) (place : Nat) : Decidable (word.Matched place) :=
  decidable_of_iff _ matched_iff.symm

/-! ## Deleting what does not count -/

theorem openPlaces_take_succ {word : Word} {place : Nat} {symbol : Symbol}
    (found : word[place]? = some symbol) :
    openPlaces (word.take (place + 1)) = restack place (openPlaces (word.take place)) symbol := by
  obtain ⟨inside, rfl⟩ := List.getElem?_eq_some_iff.mp found
  rw [← List.take_append_getElem inside, openPlaces_concat, List.length_take,
    Nat.min_eq_left (Nat.le_of_lt inside)]

/-- The symbols, brackets aside, that mean something to a turtle. -/
def strokes : List Symbol :=
  ['F', 'f', '+', '-', 'R', 'L']

/-- Whether a place of a word holds a bracket that has a partner, or a stroke. -/
def Counts (word : Word) (place : Nat) : Prop :=
  word.Matched place ∨ ∃ symbol ∈ strokes, word[place]? = some symbol

-- The search among the six strokes is named: over all symbols it could not be evaluated.
instance (word : Word) (place : Nat) : Decidable (word.Counts place) :=
  @instDecidableOr _ _ inferInstance
    (List.decidableBEx (fun symbol => word[place]? = some symbol) strokes)

/-- The symbols of a word that count, among the first `count` ones. -/
def keep (word : Word) (count : Nat) : Word :=
  (List.range count).filterMap fun place => if word.Counts place then word[place]? else none

/-- A word without the brackets that have no partner and without the symbols that mean nothing. -/
def cleaned (word : Word) : Word :=
  word.keep word.length

private theorem keep_succ {word : Word} {place : Nat} {symbol : Symbol}
    (found : word[place]? = some symbol) :
    word.keep (place + 1) = word.keep place ++ if word.Counts place then [symbol] else [] := by
  rw [keep, List.range_succ, List.filterMap_append]
  congr 1
  split <;> simp_all

private theorem counts_iff_of_bracket {word : Word} {place : Nat} {symbol : Symbol}
    (found : word[place]? = some symbol) (bracket : symbol ∉ strokes) :
    word.Counts place ↔ word.Matched place := by
  refine or_iff_left ?_
  rintro ⟨other, stroke, same⟩
  cases found.symm.trans same
  exact bracket stroke

end Word

namespace Turtle

variable {α : Type}

/-- A drawing with other saved cursors. -/
def Drawing.withSaved (drawing : Drawing α) (saved : List (Cursor α)) : Drawing α :=
  { drawing with saved }

/-- Of the cursors saved at open places, those that were saved at a bracket with a partner. -/
def cursorsOfPairs (word : Word) (opens : List Nat) (saved : List (Cursor α)) : List (Cursor α) :=
  ((opens.zip saved).filter fun entry => word.Matched entry.1).map Prod.snd

private theorem cursorsOfPairs_cons {word : Word} {place : Nat} (opens : List Nat)
    (cursor : Cursor α) (saved : List (Cursor α)) :
    cursorsOfPairs word (place :: opens) (cursor :: saved) =
      if word.Matched place then cursor :: cursorsOfPairs word opens saved
      else cursorsOfPairs word opens saved := by
  unfold cursorsOfPairs
  rw [List.zip_cons_cons, List.filter_cons]
  split <;> simp_all

variable {σ : Type} [Scalar α] [Generator σ]

private theorem growLeaf_withSaved (params : Params α) (drawing : Drawing α)
    (change : List (Cursor α) → List (Cursor α)) :
    (drawing.withSaved (change drawing.saved)).growLeaf params =
      (do
        let next ← drawing.growLeaf params
        return next.withSaved (change next.saved) : Sampling σ (Drawing α)) := by
  simp only [Drawing.growLeaf, bind_assoc, pure_bind]
  rfl

/-- A drawing with one more segment, before a leaf grows at the end of it. -/
def Drawing.addSegment (params : Params α) (drawing : Drawing α) : Drawing α :=
  { drawing with cursor := drawing.cursor.advance params.segmentLength }.addBranch
    (Placement.branch drawing.cursor.position
      (drawing.cursor.advance params.segmentLength).position drawing.cursor.radius)

private theorem step_segment (params : Params α) (base : Vec3 α) (drawing : Drawing α) :
    (step params base drawing 'F' : Sampling σ (Drawing α)) =
      if (drawing.addSegment params).cursor.isFar params base then
        (drawing.addSegment params).growLeaf params
      else pure (drawing.addSegment params) := by
  simp only [Cursor.isFar, decide_eq_true_eq]
  rfl

private theorem segment_withSaved (params : Params α) (base : Vec3 α) (drawing : Drawing α)
    (change : List (Cursor α) → List (Cursor α)) :
    step params base (drawing.withSaved (change drawing.saved)) 'F' =
      (do
        let next ← step params base drawing 'F'
        return next.withSaved (change next.saved) : Sampling σ (Drawing α)) := by
  have segment : (drawing.withSaved (change drawing.saved)).addSegment params =
      (drawing.addSegment params).withSaved (change (drawing.addSegment params).saved) := rfl
  have cursor : ((drawing.withSaved (change drawing.saved)).addSegment params).cursor =
      (drawing.addSegment params).cursor := rfl
  rw [step_segment, step_segment, cursor, segment]
  split
  · exact growLeaf_withSaved params _ change
  · rfl

/-- A symbol that is no bracket neither sees nor changes the saved cursors. -/
theorem step_withSaved {symbol : Symbol} (opening : symbol ≠ '[') (closing : symbol ≠ ']')
    (params : Params α) (base : Vec3 α) (drawing : Drawing α)
    (change : List (Cursor α) → List (Cursor α)) :
    step params base (drawing.withSaved (change drawing.saved)) symbol =
      (do
        let next ← step params base drawing symbol
        return next.withSaved (change next.saved) : Sampling σ (Drawing α)) := by
  unfold step
  split
  · exact segment_withSaved params base drawing change
  · rfl
  · simp only [bind_assoc, pure_bind]
    rfl
  · simp only [bind_assoc, pure_bind]
    rfl
  · exact absurd rfl opening
  · exact absurd rfl closing
  · rfl
  · exact growLeaf_withSaved params drawing change
  · rfl

theorem step_of_not_stroke {symbol : Symbol} (stroke : symbol ∉ Word.strokes)
    (opening : symbol ≠ '[') (closing : symbol ≠ ']') (params : Params α) (base : Vec3 α)
    (drawing : Drawing α) :
    (step params base drawing symbol : Sampling σ (Drawing α)) = pure drawing := by
  unfold step
  split <;> first | rfl | simp [Word.strokes] at stroke opening closing

/-! ## The walk along the cleaned word -/

section Walk

variable {word : Word} {place : Nat} {symbol : Symbol} {opens : List Nat} {drawing : Drawing α}

/-- A symbol that counts does the same in both walks. -/
theorem step_of_counts (found : word[place]? = some symbol) (counts : word.Counts place)
    (opened : Word.openPlaces (word.take place) = opens)
    (follows : drawing.saved.length = opens.length) (params : Params α) (base : Vec3 α) :
    step params base (drawing.withSaved (cursorsOfPairs word opens drawing.saved)) symbol =
      (do
        let next ← step params base drawing symbol
        return next.withSaved (cursorsOfPairs word (Word.restack place opens symbol) next.saved) :
          Sampling σ (Drawing α)) := by
  by_cases opening : symbol = '['
  · subst opening
    have matched := (Word.counts_iff_of_bracket found (by decide)).mp counts
    change pure _ = pure (drawing.save.withSaved (cursorsOfPairs word (place :: opens)
      (drawing.cursor :: drawing.saved)))
    rw [cursorsOfPairs_cons, if_pos matched]
    rfl
  by_cases closing : symbol = ']'
  · subst closing
    have matched := (Word.counts_iff_of_bracket found (by decide)).mp counts
    have nonempty := (Word.matched_iff_of_closes found).mp matched
    rw [opened] at nonempty
    obtain ⟨partner, rest, rfl⟩ := List.exists_cons_of_ne_nil nonempty
    have pairs := Word.pairs_of_openPlaces found opened
    obtain ⟨position, saved, branches, leaves⟩ := drawing
    cases saved with
    | nil => cases follows
    | cons cursor saved =>
        have partners : word.Matched partner := ⟨place, .inl pairs⟩
        dsimp only
        rw [cursorsOfPairs_cons, if_pos partners]
        rfl
  · rw [Word.restack_other opening closing]
    exact step_withSaved opening closing params base drawing (cursorsOfPairs word opens)

/-- A symbol that does not count leaves no trace. -/
theorem step_of_not_counts (found : word[place]? = some symbol) (counts : ¬ word.Counts place)
    (opened : Word.openPlaces (word.take place) = opens)
    (follows : drawing.saved.length = opens.length) (params : Params α) (base : Vec3 α) :
    (do
      let next ← step params base drawing symbol
      return next.withSaved (cursorsOfPairs word (Word.restack place opens symbol) next.saved) :
        Sampling σ (Drawing α)) =
      pure (drawing.withSaved (cursorsOfPairs word opens drawing.saved)) := by
  by_cases opening : symbol = '['
  · subst opening
    have unmatched := mt (Word.counts_iff_of_bracket found (by decide)).mpr counts
    change (pure (drawing.save.withSaved (cursorsOfPairs word (place :: opens)
      (drawing.cursor :: drawing.saved))) : Sampling σ (Drawing α)) = _
    rw [cursorsOfPairs_cons, if_neg unmatched]
    rfl
  by_cases closing : symbol = ']'
  · subst closing
    have unmatched := mt (Word.counts_iff_of_bracket found (by decide)).mpr counts
    rw [Word.matched_iff_of_closes found, opened, not_not] at unmatched
    subst unmatched
    obtain ⟨position, saved, branches, leaves⟩ := drawing
    cases saved with
    | nil => rfl
    | cons cursor saved => cases follows
  · have stroke : symbol ∉ Word.strokes := fun member => counts (.inr ⟨symbol, member, found⟩)
    rw [step_of_not_stroke stroke opening closing, Word.restack_other opening closing]
    rfl

end Walk

private theorem drawWord_append (params : Params α) (base : Vec3 α) (first second : Word) :
    (drawWord params base (first ++ second) : Sampling σ (Drawing α)) =
      drawWord params base first >>= fun drawing => second.foldlM (step params base) drawing := by
  simp [drawWord]

private theorem drawWord_concat (params : Params α) (base : Vec3 α) (word : Word)
    (symbol : Symbol) :
    (drawWord params base (word ++ [symbol]) : Sampling σ (Drawing α)) =
      drawWord params base word >>= fun drawing => step params base drawing symbol := by
  simp [drawWord]

/-- A turtle has saved a cursor for every open place. -/
theorem length_saved_drawWord {params : Params α} {base : Vec3 α} {word : Word}
    {drawing : Drawing α} {stream rest : σ}
    (run : drawWord params base word stream = .ok (drawing, rest)) :
    drawing.saved.length = word.openPlaces.length := by
  induction word using List.reverseRecOn generalizing drawing rest with
  | nil =>
      cases Sampling.pure_eq_ok_iff.mp run
      rfl
  | append_singleton word symbol induction =>
      obtain ⟨before, between, began, stepped⟩ := drawWord_concat_eq_ok run
      rw [saved_step stepped, Word.openPlaces_concat]
      unfold Drawing.savedAfter Word.restack
      split <;> simp [induction began]

/-- The two walks keep step: after each part of the word, the turtle that leaves out what does not
count is where the other one is, and has saved those of its cursors that it will go back to. -/
theorem drawWord_keep (params : Params α) (base : Vec3 α) (word : Word) (stream : σ) {count : Nat}
    (inside : count ≤ word.length) :
    drawWord params base (word.keep count) stream =
      (drawWord params base (word.take count) >>= fun drawing =>
        pure (drawing.withSaved (cursorsOfPairs word (Word.openPlaces (word.take count))
          drawing.saved)) : Sampling σ (Drawing α)) stream := by
  induction count with
  | zero => rfl
  | succ place induction =>
      have found := List.getElem?_eq_getElem inside
      have before := induction (Nat.le_of_lt inside)
      rw [Word.keep_succ found, Word.openPlaces_take_succ found, ← List.take_append_getElem inside,
        drawWord_concat, bind_assoc]
      have walks : ∀ drawing between, drawWord params base (word.take place) stream =
          .ok (drawing, between) →
            drawing.saved.length = (Word.openPlaces (word.take place)).length :=
        fun drawing between run => length_saved_drawWord run
      by_cases counts : word.Counts place
      · rw [if_pos counts, drawWord_concat, Sampling.bind_congr_left before, bind_assoc]
        refine Sampling.bind_congr_of_ok fun drawing between run => ?_
        rw [pure_bind, step_of_counts found counts rfl (walks drawing between run)]
      · rw [if_neg counts, List.append_nil, before]
        refine Sampling.bind_congr_of_ok fun drawing between run => ?_
        rw [step_of_not_counts found counts rfl (walks drawing between run)]

/-! ## What brackets do to a walk -/

/-- What a walk opens lies on top of the cursors that were saved before it, as long as it does not
go back to one of them. -/
theorem saved_of_openAfter? {params : Params α} {base : Vec3 α} {word : Word}
    {drawing final : Drawing α} (added : List (Cursor α)) {kept : List (Cursor α)} {count : Nat}
    {stream rest : σ} (starts : drawing.saved = added ++ kept)
    (opened : word.openAfter? added.length = some count)
    (run : word.foldlM (step params base) drawing stream = .ok (final, rest)) :
    ∃ left, final.saved = left ++ kept ∧ left.length = count := by
  induction word generalizing drawing added stream with
  | nil =>
      cases Sampling.pure_eq_ok_iff.mp run
      exact ⟨added, starts, Option.some.inj opened⟩
  | cons symbol word induction =>
      rw [List.foldlM_cons] at run
      obtain ⟨next, between, stepped, run⟩ := Sampling.bind_eq_ok_iff.mp run
      obtain ⟨middle, first, opened⟩ := Option.bind_eq_some_iff.mp opened
      obtain ⟨less, stacked, length⟩ := Word.restack_append kept first drawing.cursor
      have saved : next.saved = less ++ kept := by
        rw [saved_step stepped, ← stacked, ← starts]
        rfl
      exact induction less saved (length ▸ opened) run

/-- A walk that has closed a bracket is where it was when it opened it, and goes on from there. -/
def Resumes (params : Params α) (base : Vec3 α) (before inside after : Word) (stream : σ) : Prop :=
  ∀ closed rest, drawWord params base (before ++ '[' :: inside ++ [']']) stream =
      .ok (closed, rest) →
    ∃ opened between, drawWord params base before stream = .ok (opened, between) ∧
      closed.cursor = opened.cursor ∧ closed.saved = opened.saved ∧
      drawWord params base (before ++ '[' :: inside ++ ']' :: after) stream =
        after.foldlM (step params base) closed rest

theorem resumes_of_balanced {inside : Word} (balanced : inside.Balanced) (params : Params α)
    (base : Vec3 α) (before after : Word) (stream : σ) :
    Resumes params base before inside after stream := by
  intro closed rest run
  obtain ⟨last, later, walked, closes⟩ := drawWord_concat_eq_ok run
  rw [drawWord_append] at walked
  obtain ⟨opened, between, began, walked⟩ := Sampling.bind_eq_ok_iff.mp walked
  rw [List.foldlM_cons] at walked
  obtain ⟨first, middle, opens, walked⟩ := Sampling.bind_eq_ok_iff.mp walked
  cases Sampling.pure_eq_ok_iff.mp opens
  cases Sampling.pure_eq_ok_iff.mp closes
  obtain ⟨left, saved, length⟩ := saved_of_openAfter? [] rfl (balanced.openAfter? 0) walked
  rw [List.eq_nil_of_length_eq_zero length] at saved
  refine ⟨opened, between, began, ?_, ?_, ?_⟩
  · simp [Drawing.restore, saved, Drawing.save]
  · simp [Drawing.restore, saved, Drawing.save]
  · have parts : before ++ '[' :: inside ++ ']' :: after =
        before ++ '[' :: inside ++ [']'] ++ after := by simp
    rw [parts, drawWord_append]
    exact Sampling.bind_of_ok run _

/-- What is seen of a walk: where it ends, what it has drawn, and what is left of the stream. -/
def trace (params : Params α) (base : Vec3 α) (word : Word) (stream : σ) :
    Except SampleError (Cursor α × Array (Mat4 α) × Array (Mat4 α) × σ) :=
  (drawWord params base word stream).map fun (drawing, rest) =>
    (drawing.cursor, drawing.branches, drawing.leaves, rest)

/-- How many random words a walk draws. -/
def countDraws (params : Params α) (base : Vec3 α) (word : Word) (stream : σ) :
    Except SampleError Nat :=
  (drawWord params base word (⟨stream, 0⟩ : Counted σ)).map fun (_, rest) => rest.draws

private theorem trace_cleaned (params : Params α) (base : Vec3 α) (word : Word) (stream : σ) :
    trace params base word.cleaned stream = trace params base word stream := by
  have walks := drawWord_keep params base word stream (Nat.le_refl _)
  rw [List.take_length] at walks
  unfold trace Word.cleaned
  rw [walks, Sampling.bind_pure_eq_map]
  cases drawWord params base word stream <;> rfl

private theorem countDraws_eq_map (params : Params α) (base : Vec3 α) (word : Word) (stream : σ) :
    countDraws params base word stream =
      (trace params base word (⟨stream, 0⟩ : Counted σ)).map fun seen => seen.2.2.2.draws := by
  unfold countDraws trace
  cases drawWord params base word (⟨stream, 0⟩ : Counted σ) <;> rfl

/-- Where a balanced part of a word stands in brackets, a turtle comes back to where it was.
Brackets without a partner and symbols that mean nothing make no difference to what it draws, to
where it ends, and to how much it draws from the stream. -/
theorem pairs_of_drawWord (params : Params α) (base : Vec3 α) (stream : σ) :
    (∀ before inside after : Word, inside.Balanced →
      Resumes params base before inside after stream) ∧
    ∀ word : Word, trace params base word.cleaned stream = trace params base word stream ∧
      countDraws params base word.cleaned stream = countDraws params base word stream := by
  refine ⟨fun before inside after balanced =>
    resumes_of_balanced balanced params base before after stream, fun word => ⟨?_, ?_⟩⟩
  · exact trace_cleaned params base word stream
  · rw [countDraws_eq_map, countDraws_eq_map, trace_cleaned]

theorem pairs_of_drawWord_thicket :
    ∃ before inside after : Word, before ++ '[' :: inside ++ ']' :: after =
        "]F[R[F]L]x[F".toList ∧ inside.Balanced ∧
      (∃ closed rest, drawWord Species.fork.drawingParams ⟨0, 0, 0⟩
          (before ++ '[' :: inside ++ [']']) (⟨#[5], 0⟩ : Cycle) = .ok (closed, rest) ∧
        closed.branches.size = 2) ∧
      Resumes Species.fork.drawingParams ⟨0, 0, 0⟩ before inside after (⟨#[5], 0⟩ : Cycle) ∧
      trace Species.fork.drawingParams ⟨0, 0, 0⟩ "F[R[F]L]F".toList (⟨#[5], 0⟩ : Cycle) =
        trace Species.fork.drawingParams ⟨0, 0, 0⟩ "]F[R[F]L]x[F".toList (⟨#[5], 0⟩ : Cycle) := by
  have balanced : Word.Balanced "R[F]L".toList := by decide
  have cleaned : Word.cleaned "]F[R[F]L]x[F".toList = "F[R[F]L]F".toList := by decide +kernel
  have drawn : (drawWord Species.fork.drawingParams ⟨0, 0, 0⟩ "]F[R[F]L]".toList
      (⟨#[5], 0⟩ : Cycle)).toOption.any (fun reached => reached.1.branches.size == 2) = true := by
    decide +kernel
  obtain ⟨⟨closed, rest⟩, drawn, branches⟩ := Except.exists_of_any drawn
  obtain ⟨resumes, cleans⟩ :=
    pairs_of_drawWord Species.fork.drawingParams ⟨0, 0, 0⟩ (⟨#[5], 0⟩ : Cycle)
  refine ⟨"]F".toList, "R[F]L".toList, "x[F".toList, by decide, balanced,
    ⟨closed, rest, drawn, beq_iff_eq.mp branches⟩, resumes _ _ _ balanced, ?_⟩
  rw [← cleaned]
  exact (cleans _).1

end Turtle

end Grove
