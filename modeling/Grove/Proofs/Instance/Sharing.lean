import Mathlib.Logic.Function.Basic
import Grove.Proofs.Instance.Handles

/-!
# Registries that share a renderer

Several registries may draw with one renderer. Each of them is given calls, and the calls of all of
them may come in any order. Handles are places in the renderer's one array of batches, so what keeps
the registries apart is who has been given which place: no place is given twice, and none is given
back.

Two runs are compared, one of them with the calls of a single registry only. The places that this
registry is given differ between the runs, so what is related is the place in the one run with the
place in the other: both are held for the same categories, by this registry alone, and both show the
same.
-/

set_option autoImplicit false

namespace Grove

/-- One call of a registry. -/
inductive RegistryCall (α : Type) where
  | add (category : Category) (placement : Mat4 α) (owner : TreeId)
  | build
  | setLive (category : Category) (slot : Nat) (placement : Mat4 α)
  | moveOwned (owner : TreeId) (change : Mat4 α → Mat4 α)
  | flush
  | firstHit (ray : Ray α) (pickable : TreeId → Bool)

/-- What a call returns. -/
inductive RegistryAnswer (α : Type) where
  | slot (slot : Nat)
  | done
  | found (found : Bool)
  | count (count : Nat)
  | hit (hit : Option (SlotHit α))

namespace RegistryCall

variable {α : Type} [Scalar α]

def perform (display : Display α) : RegistryCall α → RegistryAnswer α × Display α
  | .add category placement owner =>
      let (slot, registry) := display.registry.add category placement owner
      (.slot slot, { display with registry })
  | .build =>
      let (registry, renderer) := display.registry.build display.renderer
      (.done, { registry, renderer })
  | .setLive category slot placement =>
      let (found, registry) := display.registry.setLive category slot placement
      (.found found, { display with registry })
  | .moveOwned owner change =>
      let (count, registry) := display.registry.moveOwned owner change
      (.count count, { display with registry })
  | .flush =>
      let (count, registry, renderer) := display.registry.flush display.renderer
      (.count count, { registry, renderer })
  | .firstHit ray pickable =>
      (.hit (display.registry.firstHit? display.renderer ray pickable), display)

/-! ## One call -/

private theorem handle_perform {call : RegistryCall α} (kept : call ≠ .build) (display : Display α)
    (category : Category) :
    ((call.perform display).2.batch category).handle = (display.batch category).handle := by
  cases call with
  | add other placement owner =>
      simp only [perform, Display.batch, Registry.batch_add]
      split <;> simp
  | build => exact absurd rfl kept
  | setLive other slot placement =>
      simp only [perform, Display.batch, Registry.batch_setLive]
      split <;> simp
  | moveOwned owner change => exact Registry.handle_moveOwned display.registry owner change category
  | flush => exact Registry.handle_flush display.registry display.renderer category
  | firstHit ray pickable => rfl

omit [Scalar α] in
private theorem ne_builtHandle {renderer : Renderer α} {handle : Handle} {drawn : DrawBatch α}
    (known : renderer.batch? handle = some drawn) (category : Category) :
    handle ≠ Registry.builtHandle renderer category := by
  rintro rfl
  cases (Registry.batch?_builtHandle renderer category).symm.trans known

/-- What the renderer has under a handle is written by a flush of a registry that holds the handle,
and by nothing else. -/
theorem batch?_perform (call : RegistryCall α) (display : Display α) {handle : Handle}
    {drawn : DrawBatch α} (known : display.renderer.batch? handle = some drawn) :
    (call.perform display).2.renderer.batch? handle =
      match call with
      | .flush => some (display.registry.redraw (display.registry.drawnUnder handle) drawn)
      | _ => some drawn := by
  cases call with
  | build =>
      refine (Registry.batch?_build display.registry display.renderer handle).trans ?_
      rw [if_neg (ne_builtHandle known .leaf), if_neg (ne_builtHandle known .branch), known]
  | flush =>
      refine (Registry.batch?_flush display.registry display.renderer handle).trans ?_
      rw [known]
      rfl
  | _ => exact known

private theorem batch?_perform_of_not_held (display : Display α) {handle : Handle}
    {drawn : DrawBatch α} (known : display.renderer.batch? handle = some drawn)
    (free : ∀ category, (display.batch category).handle ≠ some handle) (call : RegistryCall α) :
    (call.perform display).2.renderer.batch? handle = some drawn := by
  rw [batch?_perform call display known]
  have branches : display.registry.drawnUnder handle .branch = false :=
    beq_eq_false_iff_ne.mpr (free .branch)
  have leaves : display.registry.drawnUnder handle .leaf = false :=
    beq_eq_false_iff_ne.mpr (free .leaf)
  cases call <;> simp [Registry.redraw, branches, leaves]

private theorem batch?_perform_alike (left right : Display α)
    (alike : left.registry.Alike right.registry) {handle other : Handle}
    (held : ∀ category, (left.batch category).handle = some handle ↔
      (right.batch category).handle = some other)
    {drawn : DrawBatch α} (known : left.renderer.batch? handle = some drawn)
    (found : right.renderer.batch? other = some drawn) (call : RegistryCall α) :
    ∃ drawn, (call.perform left).2.renderer.batch? handle = some drawn ∧
      (call.perform right).2.renderer.batch? other = some drawn := by
  have under : left.registry.drawnUnder handle = right.registry.drawnUnder other := by
    funext category
    exact Bool.eq_iff_iff.mpr (by simpa [Registry.drawnUnder] using! held category)
  rw [batch?_perform call left known, batch?_perform call right found, alike.redraw, under]
  cases call <;> exact ⟨_, rfl, rfl⟩

/-- Displays that show the same return the same, whatever they are called for. -/
theorem perform_alike (left right : Display α) (alike : left.registry.Alike right.registry)
    (drawn : ∀ category, (left.batch category).handle.bind left.renderer.batch? =
      (right.batch category).handle.bind right.renderer.batch?) (call : RegistryCall α) :
    (call.perform left).1 = (call.perform right).1 ∧
      (call.perform left).2.registry.Alike (call.perform right).2.registry := by
  cases call with
  | add category placement owner =>
      have added := alike.add category placement owner
      exact ⟨congrArg RegistryAnswer.slot added.1, added.2⟩
  | build => exact ⟨rfl, alike.build left.renderer right.renderer⟩
  | setLive category slot placement =>
      have written := alike.setLive category slot placement
      exact ⟨congrArg RegistryAnswer.found written.1, written.2⟩
  | moveOwned owner change =>
      have moved := alike.moveOwned owner change
      exact ⟨congrArg RegistryAnswer.count moved.1, moved.2⟩
  | flush =>
      have flushed := alike.flush left.renderer right.renderer
      exact ⟨congrArg RegistryAnswer.count flushed.1, flushed.2⟩
  | firstHit ray pickable =>
      have branches : Registry.firstHitIn? left.registry.branches left.renderer ray pickable =
          Registry.firstHitIn? right.registry.branches right.renderer ray pickable :=
        Registry.firstHitIn?_congr (alike .branch) (drawn .branch) ray pickable
      have leaves : Registry.firstHitIn? left.registry.leaves left.renderer ray pickable =
          Registry.firstHitIn? right.registry.leaves right.renderer ray pickable :=
        Registry.firstHitIn?_congr (alike .leaf) (drawn .leaf) ray pickable
      refine ⟨congrArg RegistryAnswer.hit ?_, alike⟩
      simp only [Registry.firstHit?, Registry.batches, List.foldl_cons, List.foldl_nil, branches,
        leaves]

end RegistryCall

/-- Registries, each of a party of its own, and the renderer that they share. -/
structure Shared (ι α : Type) where
  registries : ι → Registry α
  renderer : Renderer α

namespace Shared

variable {ι α : Type}

/-- The registries are empty; the renderer may have batches of others. -/
def start (ι : Type) (renderer : Renderer α) : Shared ι α :=
  { registries := fun _ => .empty, renderer }

def display (shared : Shared ι α) (party : ι) : Display α :=
  { registry := shared.registries party, renderer := shared.renderer }

def handle? (shared : Shared ι α) (party : ι) (category : Category) : Option Handle :=
  ((shared.registries party).batch category).handle

variable [Scalar α] [DecidableEq ι]

/-- A party calls its registry. -/
def call (shared : Shared ι α) (party : ι) (call : RegistryCall α) :
    RegistryAnswer α × Shared ι α :=
  let (answer, display) := call.perform (shared.display party)
  (answer,
    { registries := Function.update shared.registries party display.registry
      renderer := display.renderer })

/-- Some calls, one after the other, and what each party is answered. -/
def run (shared : Shared ι α) :
    List (ι × RegistryCall α) → List (ι × RegistryAnswer α) × Shared ι α
  | [] => ([], shared)
  | (party, call) :: rest =>
      let (answer, shared) := shared.call party call
      let (answers, shared) := shared.run rest
      ((party, answer) :: answers, shared)

omit [Scalar α] in
/-- What concerns one party only. -/
def own {β : Type} (party : ι) (entries : List (ι × β)) : List (ι × β) :=
  entries.filter (·.1 = party)

def after (renderer : Renderer α) (calls : List (ι × RegistryCall α)) : Shared ι α :=
  ((start ι renderer).run calls).2

/-- What a party can rely on when it shares a renderer, however its calls and those of the others
are interleaved. -/
structure Isolated (renderer : Renderer α) (calls : List (ι × RegistryCall α)) (party : ι) :
    Prop where
  /-- It is answered as if there were no others. -/
  answers : own party ((start ι renderer).run calls).1 =
    ((start ι renderer).run (own party calls)).1
  /-- Whatever has been drawn for it at any time, under the handle that it was given then, is drawn
  as if there were no others. -/
  drawn : ∀ earlier later, calls = earlier ++ later → ∀ category,
    Option.Rel
      (fun handle other => ∃ drawn,
        (after renderer calls).renderer.batch? handle = some drawn ∧
          (after renderer (own party calls)).renderer.batch? other = some drawn)
      ((after renderer earlier).handle? party category)
      ((after renderer (own party earlier)).handle? party category)
  /-- What it had drawn before it built its registry once more stays as it was. -/
  abandoned : ∀ earlier later, calls = earlier ++ (party, .build) :: later →
    ∀ category handle, (after renderer earlier).handle? party category = some handle →
      ∃ drawn, (after renderer earlier).renderer.batch? handle = some drawn ∧
        (after renderer calls).renderer.batch? handle = some drawn

/-! ## Who holds which handle -/

private theorem handle?_call_of_ne {shared : Shared ι α} {party other : ι} (apart : other ≠ party)
    (call : RegistryCall α) (category : Category) :
    (shared.call party call).2.handle? other category = shared.handle? other category := by
  simp [handle?, Shared.call, Function.update_of_ne apart]

private theorem handle?_call_self (shared : Shared ι α) (party : ι) (call : RegistryCall α)
    (category : Category) :
    (shared.call party call).2.handle? party category =
      ((call.perform (shared.display party)).2.batch category).handle := by
  simp [handle?, Shared.call, Display.batch]

private theorem handle?_build (shared : Shared ι α) (party : ι) (category : Category) :
    (shared.call party .build).2.handle? party category =
      some (Registry.builtHandle shared.renderer category) :=
  (handle?_call_self shared party .build category).trans
    (Registry.handle_build (shared.registries party) shared.renderer category)

/-- A handle that is held after a call was held before, or it is one of those given by the call. -/
theorem handle?_call_cases (shared : Shared ι α) (party : ι) (call : RegistryCall α) (other : ι)
    (category : Category) :
    (shared.call party call).2.handle? other category = shared.handle? other category ∨
      other = party ∧ call = .build ∧
        (shared.call party call).2.handle? other category =
          some (Registry.builtHandle shared.renderer category) := by
  by_cases apart : other = party
  · subst apart
    by_cases built : call = .build
    · subst built
      exact .inr ⟨rfl, rfl, handle?_build shared other category⟩
    · exact .inl ((handle?_call_self shared other call category).trans
        (RegistryCall.handle_perform built _ category))
  · exact .inl (handle?_call_of_ne apart call category)

private theorem exists_batch?_call {shared : Shared ι α} {handle : Handle} {drawn : DrawBatch α}
    (known : shared.renderer.batch? handle = some drawn) (party : ι) (call : RegistryCall α) :
    ∃ drawn, (shared.call party call).2.renderer.batch? handle = some drawn := by
  have kept := RegistryCall.batch?_perform call (shared.display party) known
  cases call <;> exact ⟨_, kept⟩

/-- The renderer knows all handles that are held, and no two parties hold the same. -/
structure Sound (shared : Shared ι α) : Prop where
  known : ∀ party category handle, shared.handle? party category = some handle →
    ∃ drawn, shared.renderer.batch? handle = some drawn
  apart : ∀ party other category category' handle, shared.handle? party category = some handle →
    shared.handle? other category' = some handle → party = other

omit [Scalar α] [DecidableEq ι] in
theorem Sound.start (renderer : Renderer α) : (start ι renderer).Sound where
  known party category handle held := by cases category <;> cases held
  apart party other category category' handle held := by cases category <;> cases held

theorem Sound.call {shared : Shared ι α} (sound : shared.Sound) (party : ι)
    (call : RegistryCall α) : (shared.call party call).2.Sound where
  known other category handle held := by
    rcases handle?_call_cases shared party call other category with kept | ⟨rfl, rfl, given⟩
    · obtain ⟨drawn, known⟩ := sound.known other category handle (kept.symm.trans held)
      exact exists_batch?_call known party call
    · cases given.symm.trans held
      exact ⟨_, Registry.batch?_build_builtHandle (shared.registries other) shared.renderer
        category⟩
  apart first second category category' handle firstHeld secondHeld := by
    -- The handles of a build are new, so they are held by nobody else.
    rcases handle?_call_cases shared party call first category with kept | ⟨caller, -, given⟩ <;>
      rcases handle?_call_cases shared party call second category' with
        kept' | ⟨caller', -, given'⟩
    · exact sound.apart first second category category' handle (kept.symm.trans firstHeld)
        (kept'.symm.trans secondHeld)
    · obtain ⟨drawn, known⟩ := sound.known first category handle (kept.symm.trans firstHeld)
      cases given'.symm.trans secondHeld
      exact absurd rfl (RegistryCall.ne_builtHandle known category')
    · obtain ⟨drawn, known⟩ := sound.known second category' handle (kept'.symm.trans secondHeld)
      cases given.symm.trans firstHeld
      exact absurd rfl (RegistryCall.ne_builtHandle known category)
    · exact caller.trans caller'.symm

/-! ## Two runs -/

/-- A handle of the one run and a handle of the other that stand for the same: they are held for the
same categories, by one party only, and show the same. -/
structure Tracks (full alone : Shared ι α) (party : ι) (handle other : Handle) : Prop where
  drawn : ∃ drawn, full.renderer.batch? handle = some drawn ∧
    alone.renderer.batch? other = some drawn
  owned : ∀ holder category, full.handle? holder category = some handle → holder = party
  held : ∀ category, full.handle? party category = some handle ↔
    alone.handle? party category = some other

/-- Two runs, of which the second has the calls of one party only. -/
structure Twins (full alone : Shared ι α) (party : ι) : Prop where
  sound : full.Sound
  alike : (full.registries party).Alike (alone.registries party)
  tracked : ∀ category handle other, full.handle? party category = some handle →
    alone.handle? party category = some other → Tracks full alone party handle other

/-- Nobody takes over a handle that is known. -/
theorem owned_call {shared : Shared ι α} {handle : Handle} {drawn : DrawBatch α} {party : ι}
    (known : shared.renderer.batch? handle = some drawn)
    (owned : ∀ holder category, shared.handle? holder category = some handle → holder = party)
    (caller : ι) (call : RegistryCall α) (holder : ι) (category : Category)
    (held : (shared.call caller call).2.handle? holder category = some handle) :
    holder = party := by
  rcases handle?_call_cases shared caller call holder category with kept | ⟨-, -, given⟩
  · exact owned holder category (kept.symm.trans held)
  · cases given.symm.trans held
    exact absurd rfl (RegistryCall.ne_builtHandle known category)

theorem Tracks.call_of_ne {full alone : Shared ι α} {party caller : ι} {handle other : Handle}
    (tracks : Tracks full alone party handle other) (apart : caller ≠ party)
    (call : RegistryCall α) : Tracks (full.call caller call).2 alone party handle other := by
  obtain ⟨drawn, known, found⟩ := tracks.drawn
  refine ⟨⟨drawn, ?_, found⟩, owned_call known tracks.owned caller call, fun category => ?_⟩
  · exact RegistryCall.batch?_perform_of_not_held (full.display caller) known
      (fun category => mt (tracks.owned caller category) apart) call
  · rw [handle?_call_of_ne apart.symm]
    exact tracks.held category

theorem Tracks.call_self {full alone : Shared ι α} {party : ι} {handle other : Handle}
    (tracks : Tracks full alone party handle other)
    (alike : (full.registries party).Alike (alone.registries party)) (call : RegistryCall α) :
    Tracks (full.call party call).2 (alone.call party call).2 party handle other := by
  obtain ⟨drawn, known, found⟩ := tracks.drawn
  refine ⟨?_, owned_call known tracks.owned party call, fun category => ?_⟩
  · exact RegistryCall.batch?_perform_alike (full.display party) (alone.display party) alike
      tracks.held known found call
  · by_cases built : call = .build
    · subst built
      have new := RegistryCall.ne_builtHandle known category
      have new' := RegistryCall.ne_builtHandle found category
      simp [handle?_build, new.symm, new'.symm]
    · rw [handle?_call_self, handle?_call_self, RegistryCall.handle_perform built,
        RegistryCall.handle_perform built]
      exact tracks.held category

/-- A build gives handles that stand for the same in both runs. -/
theorem Tracks.build {full alone : Shared ι α} {party : ι} (sound : full.Sound)
    (alike : (full.registries party).Alike (alone.registries party)) (category : Category) :
    Tracks (full.call party .build).2 (alone.call party .build).2 party
      (Registry.builtHandle full.renderer category)
      (Registry.builtHandle alone.renderer category) where
  drawn := by
    refine ⟨_, Registry.batch?_build_builtHandle (full.registries party) full.renderer category, ?_⟩
    rw [(alike category).drawing]
    exact Registry.batch?_build_builtHandle (alone.registries party) alone.renderer category
  owned holder other held :=
    (sound.call party .build).apart holder party other category _ held
      (handle?_build full party category)
  held other := by
    simp [handle?_build, Registry.builtHandle_inj]

omit [Scalar α] [DecidableEq ι] in
theorem Twins.start (renderer : Renderer α) (party : ι) :
    Twins (start ι renderer) (start ι renderer) party where
  sound := .start renderer
  alike := fun _ => rfl
  tracked category handle other held := by cases category <;> cases held

/-- The calls of the others make no difference. -/
theorem Twins.call_of_ne {full alone : Shared ι α} {party caller : ι}
    (twins : Twins full alone party) (apart : caller ≠ party) (call : RegistryCall α) :
    Twins (full.call caller call).2 alone party where
  sound := twins.sound.call caller call
  alike := by
    simpa [Shared.call, Function.update_of_ne apart.symm] using twins.alike
  tracked category handle other held held' := by
    rw [handle?_call_of_ne apart.symm] at held
    exact (twins.tracked category handle other held held').call_of_ne apart call

omit [Scalar α] [DecidableEq ι] in
theorem Twins.rel_handle? {full alone : Shared ι α} {party : ι} (twins : Twins full alone party)
    {related : Handle → Handle → Prop} (category : Category)
    (tracked : ∀ handle other, Tracks full alone party handle other → related handle other) :
    Option.Rel related (full.handle? party category) (alone.handle? party category) := by
  have same : (full.handle? party category).isSome = (alone.handle? party category).isSome :=
    (twins.alike category).isSome_handle
  cases held : full.handle? party category <;> cases held' : alone.handle? party category
  · exact .none
  · simp [held, held'] at same
  · simp [held, held'] at same
  · exact .some (tracked _ _ (twins.tracked category _ _ held held'))

omit [Scalar α] [DecidableEq ι] in
theorem Twins.drawn {full alone : Shared ι α} {party : ι} (twins : Twins full alone party)
    (category : Category) :
    (full.handle? party category).bind full.renderer.batch? =
      (alone.handle? party category).bind alone.renderer.batch? := by
  have same := twins.rel_handle? category fun _ _ tracks => tracks.drawn
  generalize full.handle? party category = held, alone.handle? party category = held' at same ⊢
  cases same with
  | none => rfl
  | some same =>
      obtain ⟨drawn, known, found⟩ := same
      exact known.trans found.symm

theorem Twins.call_self {full alone : Shared ι α} {party : ι} (twins : Twins full alone party)
    (call : RegistryCall α) :
    (full.call party call).1 = (alone.call party call).1 ∧
      Twins (full.call party call).2 (alone.call party call).2 party := by
  obtain ⟨same, alike⟩ := RegistryCall.perform_alike (full.display party)
    (alone.display party) twins.alike twins.drawn call
  refine ⟨same, twins.sound.call party call, ?_, fun category handle other held held' => ?_⟩
  · simpa [Shared.call] using alike
  · by_cases built : call = .build
    · subst built
      cases (handle?_build full party category).symm.trans held
      cases (handle?_build alone party category).symm.trans held'
      exact .build twins.sound twins.alike category
    · rw [handle?_call_self, RegistryCall.handle_perform built] at held held'
      exact (twins.tracked category handle other held held').call_self twins.alike call

/-! ## Runs -/

omit [Scalar α] in
private theorem own_cons_self {β : Type} (party : ι) (entry : β) (entries : List (ι × β)) :
    own party ((party, entry) :: entries) = (party, entry) :: own party entries := by
  simp [own]

omit [Scalar α] in
private theorem own_cons_of_ne {β : Type} {party other : ι} (apart : other ≠ party) (entry : β)
    (entries : List (ι × β)) : own party ((other, entry) :: entries) = own party entries := by
  simp [own, apart]

private theorem run_cons (shared : Shared ι α) (party : ι) (call : RegistryCall α)
    (rest : List (ι × RegistryCall α)) :
    shared.run ((party, call) :: rest) =
      ((party, (shared.call party call).1) :: ((shared.call party call).2.run rest).1,
        ((shared.call party call).2.run rest).2) :=
  rfl

theorem Twins.run {full alone : Shared ι α} {party : ι} (twins : Twins full alone party)
    (calls : List (ι × RegistryCall α)) :
    own party (full.run calls).1 = (alone.run (own party calls)).1 ∧
      Twins (full.run calls).2 (alone.run (own party calls)).2 party := by
  induction calls generalizing full alone with
  | nil => exact ⟨rfl, twins⟩
  | cons entry calls induction =>
      obtain ⟨caller, call⟩ := entry
      by_cases apart : caller = party
      · subst apart
        obtain ⟨same, next⟩ := twins.call_self call
        obtain ⟨answers, final⟩ := induction next
        rw [own_cons_self, run_cons, run_cons]
        exact ⟨by rw [own_cons_self, same, answers], final⟩
      · obtain ⟨answers, final⟩ := induction (twins.call_of_ne apart call)
        rw [own_cons_of_ne apart, run_cons]
        exact ⟨by rw [own_cons_of_ne apart, answers], final⟩

theorem Tracks.run {full alone : Shared ι α} {party : ι} {handle other : Handle}
    (tracks : Tracks full alone party handle other) (twins : Twins full alone party)
    (calls : List (ι × RegistryCall α)) :
    Tracks (full.run calls).2 (alone.run (own party calls)).2 party handle other := by
  induction calls generalizing full alone with
  | nil => exact tracks
  | cons entry calls induction =>
      obtain ⟨caller, call⟩ := entry
      by_cases apart : caller = party
      · subst apart
        rw [own_cons_self]
        exact induction (tracks.call_self twins.alike call) (twins.call_self call).2
      · rw [own_cons_of_ne apart]
        exact induction (tracks.call_of_ne apart call) (twins.call_of_ne apart call)

/-- What is drawn under a handle that nobody holds stays as it is. -/
theorem batch?_run_of_not_held {shared : Shared ι α} {handle : Handle} {drawn : DrawBatch α}
    (known : shared.renderer.batch? handle = some drawn)
    (free : ∀ party category, shared.handle? party category ≠ some handle)
    (calls : List (ι × RegistryCall α)) :
    (shared.run calls).2.renderer.batch? handle = some drawn := by
  induction calls generalizing shared with
  | nil => exact known
  | cons entry calls induction =>
      obtain ⟨caller, call⟩ := entry
      have kept : (shared.call caller call).2.renderer.batch? handle = some drawn :=
        RegistryCall.batch?_perform_of_not_held (shared.display caller) known
          (free caller) call
      rw [run_cons]
      refine induction kept fun party category => ?_
      rcases handle?_call_cases shared caller call party category with kept | ⟨-, -, given⟩
      · rw [kept]
        exact free party category
      · rw [given]
        exact fun same => RegistryCall.ne_builtHandle known category (Option.some.inj same).symm

private theorem run_append (shared : Shared ι α) (earlier later : List (ι × RegistryCall α)) :
    (shared.run (earlier ++ later)).2 = ((shared.run earlier).2.run later).2 := by
  induction earlier generalizing shared with
  | nil => rfl
  | cons entry earlier induction => exact induction _

/-- Registries that share a renderer do not see each other, and a batch that has been given up is
never written again. -/
theorem isolated_of_run (renderer : Renderer α) (calls : List (ι × RegistryCall α)) (party : ι) :
    Isolated renderer calls party where
  answers := ((Twins.start renderer party).run calls).1
  drawn := by
    rintro earlier later rfl category
    have twins := ((Twins.start renderer party).run earlier).2
    have split : own party (earlier ++ later) = own party earlier ++ own party later :=
      List.filter_append ..
    simp only [after, split, run_append]
    exact twins.rel_handle? category fun handle other tracks => (tracks.run twins later).drawn
  abandoned := by
    rintro earlier later rfl category handle held
    have sound : (after renderer earlier).Sound :=
      ((Twins.start renderer party).run earlier).2.sound
    obtain ⟨drawn, known⟩ := sound.known party category handle held
    refine ⟨drawn, known, ?_⟩
    rw [after, run_append, run_cons]
    refine batch?_run_of_not_held ?_ (fun holder other held' => ?_) later
    · exact RegistryCall.batch?_perform .build ((after renderer earlier).display party) known
    · -- The handle is not among the new ones, and its last holder has let go of it.
      have apart : holder ≠ party := by
        rintro rfl
        cases (handle?_build _ holder other).symm.trans held'
        exact RegistryCall.ne_builtHandle known other rfl
      rw [handle?_call_of_ne apart] at held'
      exact apart (sound.apart holder party other category handle held' held)

end Shared

end Grove
