import ItchLob.Shared.FiniteMap
import ItchLob.Shared.Transition

set_option autoImplicit false

namespace Ownership

/-- What one call into the system returns: whether it succeeds, the number it then
gives, and the error number it leaves when it fails. -/
structure Answer where
  fine : Bool := true
  number : Nat := 0
  errno : Nat := 0
  deriving DecidableEq, Repr

/-- `held` are the handles the system has given out and not had back, `faults` the
closes of a handle that was not held. `failed` is a ghost: the error number of the
latest call that failed, closes apart. -/
structure World (H : Type) where
  held : List H := []
  faults : List H := []
  errno : Nat := 0
  failed : Option Nat := none
  answers : List Answer := []

abbrev Prog (H E A : Type) := ExceptT E (StateM (World H)) A

section Calls

variable {H E A : Type} [DecidableEq H]

-- Past the end of the script every call fails.
def World.answer (w : World H) : Answer × World H :=
  match w.answers with
  | [] => ({ fine := false }, w)
  | a :: rest => (a, { w with answers := rest })

def World.fail (w : World H) (errno : Nat) : World H := { w with errno, failed := some errno }

/-- A call that opens a handle. The system only gives out what is not held: an answer
with any other number stands for a call that fails. -/
def acquire (handle : Nat → H) : Prog H E (Option Nat) := fun w =>
  let (a, w) := w.answer
  if a.fine ∧ handle a.number ∉ w.held then (.ok (some a.number), { w with held := handle a.number :: w.held })
  else (.ok none, w.fail a.errno)

-- A call that opens and closes nothing.
def check : Prog H E (Option Nat) := fun w =>
  let (a, w) := w.answer
  if a.fine then (.ok (some a.number), w) else (.ok none, w.fail a.errno)

-- A conversion that fails without an error number.
def convert : Prog H E Bool := fun w =>
  let (a, w) := w.answer
  (.ok a.fine, w)

-- Closing may fail too, and then changes the error number.
def release (h : H) : Prog H E Unit := fun w =>
  let (a, w) := w.answer
  let errno := if a.fine then w.errno else a.errno
  if h ∈ w.held then (.ok (), { w with held := w.held.erase h, errno })
  else (.ok (), { w with faults := w.faults ++ [h], errno })

def errno : Prog H E Nat := fun w => (.ok w.errno, w)

def releaseAll : List H → Prog H E Unit
  | [] => pure ()
  | h :: rest => do
    release h
    releaseAll rest

-- The error number is read before anything is closed.
def abandon (handles : List H) (error : Nat → E) : Prog H E A := do
  let code ← errno
  releaseAll handles
  throw (error code)

end Calls

section Rules

variable {H E A B : Type}

-- What follows a program, for the two ways it can end.
def outcome {X : Type} (ok : A → World H → X) (error : E → World H → X) (r : Except E A × World H) : X :=
  match r.1 with
  | .ok a => ok a r.2
  | .error e => error e r.2

def unwinding (p : Prog H E A) (cleanup : Prog H E Unit) : Prog H E A := fun w =>
  outcome (fun a w' => (.ok a, w')) (fun e w' => (.error e, (cleanup w').2)) (p w)

theorem run_bind (p : Prog H E A) (next : A → Prog H E B) (w : World H) :
    (p >>= next) w = outcome next (fun e w' => (.error e, w')) (p w) := by
  change ExceptT.bindCont next (p w).1 (p w).2 = _
  rcases p w with ⟨e | a, w'⟩
  · rfl
  · rfl

/-- Started where `pre` holds, the program returns where `post` holds of its result, or
throws where `thrown` holds of the exception. -/
def Triple (pre : World H → Prop) (p : Prog H E A) (post : A → World H → Prop) (thrown : E → World H → Prop) : Prop :=
  ∀ w, pre w → outcome post thrown (p w)

variable {pre pre' : World H → Prop} {p : Prog H E A} {post post' : A → World H → Prop}
  {thrown thrown' : E → World H → Prop}

theorem Triple.weaken (triple : Triple pre p post thrown) (before : ∀ w, pre' w → pre w)
    (after : ∀ a w, post a w → post' a w) (error : ∀ e w, thrown e w → thrown' e w) :
    Triple pre' p post' thrown' := by
  intro w holds
  have outcome := triple w (before w holds)
  rcases ran : p w with ⟨a | e, w'⟩ <;> rw [ran] at outcome
  · exact error _ _ outcome
  · exact after _ _ outcome

theorem Triple.pure (a : A) (holds : ∀ w, pre w → post a w) : Triple pre (pure a : Prog H E A) post thrown :=
  fun w before => holds w before

theorem Triple.throw (e : E) (holds : ∀ w, pre w → thrown e w) : Triple pre (throw e : Prog H E A) post thrown :=
  fun w before => holds w before

theorem Triple.bind {next : A → Prog H E B} {last : B → World H → Prop} (first : Triple pre p post thrown)
    (second : ∀ a, Triple (post a) (next a) last thrown) : Triple pre (p >>= next) last thrown := by
  intro w before
  have middle := first w before
  rw [run_bind]
  rcases ran : p w with ⟨e | a, w'⟩ <;> rw [ran] at middle
  · exact middle
  · exact second a w' middle

theorem Triple.exists {I : Type} {pres : I → World H → Prop} (each : ∀ i, Triple (pres i) p post thrown) :
    Triple (fun w => ∃ i, pres i w) p post thrown :=
  fun w ⟨i, holds⟩ => each i w holds

theorem Triple.unwinding {cleanup : Prog H E Unit} {never : E → World H → Prop} (body : Triple pre p post thrown')
    (cleans : ∀ e, Triple (thrown' e) cleanup (fun _ => thrown e) never) (quiet : ∀ e w, ¬never e w) :
    Triple pre (unwinding p cleanup) post thrown := by
  intro w before
  have middle := body w before
  rw [Ownership.unwinding]
  rcases ran : p w with ⟨e | a, w'⟩ <;> rw [ran] at middle
  · have cleaned := cleans e w' middle
    rcases last : cleanup w' with ⟨e' | u, w''⟩ <;> rw [last] at cleaned
    · exact absurd cleaned (quiet _ _)
    · change thrown e (cleanup w').2
      rw [last]
      exact cleaned
  · exact middle

end Rules

structure At {H : Type} (hs : List H) (code : Nat) (failed : Option Nat) (w : World H) : Prop where
  faults : w.faults = []
  nodup : w.held.Nodup
  held : w.held.Perm hs
  errno : w.errno = code
  failed : w.failed = failed

-- The latest call has failed, and errno is the number it left.
def Failed {H : Type} (hs : List H) (w : World H) : Prop := ∃ code, At hs code (some code) w

def Holds {H : Type} (hs : List H) (w : World H) : Prop := ∃ code failed, At hs code failed w

def Answered {H : Type} (opens : Nat → List H) (hs : List H) (code : Nat) (failed : Option Nat) :
    Option Nat → World H → Prop
  | some n, w => At (opens n ++ hs) code failed w
  | none, w => Failed hs w

section Calls

variable {H E A : Type} {hs : List H} {code : Nat} {failed : Option Nat} {w : World H}
  {post : A → World H → Prop} {thrown : E → World H → Prop}

theorem At.perm {hs' : List H} (at' : At hs code failed w) (same : hs.Perm hs') : At hs' code failed w :=
  { at' with held := at'.held.trans same }

theorem At.holds (at' : At hs code failed w) : Holds hs w := ⟨code, failed, at'⟩

theorem Failed.perm {hs' : List H} (failed : Failed hs w) (same : hs.Perm hs') : Failed hs' w := by
  obtain ⟨code, at'⟩ := failed
  exact ⟨code, at'.perm same⟩

theorem Holds.perm {hs' : List H} (holds : Holds hs w) (same : hs.Perm hs') : Holds hs' w := by
  obtain ⟨code, failed, at'⟩ := holds
  exact (at'.perm same).holds

theorem At.answer (at' : At hs code failed w) : At hs code failed w.answer.2 := by
  rw [World.answer]
  split
  · exact at'
  · exact { at' with }

theorem At.fail (at' : At hs code failed w) (error : Nat) : Failed hs (w.fail error) :=
  ⟨error, { at' with errno := rfl, failed := rfl }⟩

theorem errno_spec :
    Triple (At hs code failed) (errno : Prog H E Nat) (fun c w => c = code ∧ At hs code failed w) thrown :=
  fun _ at' => ⟨at'.errno, at'⟩

theorem convert_spec : Triple (At hs code failed) (convert : Prog H E Bool) (fun _ => At hs code failed) thrown :=
  fun _ at' => at'.answer

theorem check_spec :
    Triple (At hs code failed) (check : Prog H E (Option Nat)) (Answered (fun _ => []) hs code failed) thrown := by
  intro w at'
  have next := at'.answer
  simp only [check]
  split
  · exact next
  · exact next.fail _

theorem unchecked_spec :
    Triple (At hs code failed) (check : Prog H E (Option Nat)) (fun _ => Holds hs) thrown := by
  refine check_spec.weaken (fun _ at' => at') (fun a w answered => ?_) fun _ _ holds => holds
  cases a with
  | none => exact answered.elim fun _ at' => at'.holds
  | some n => exact At.holds answered

variable [DecidableEq H]

theorem acquire_spec (handle : Nat → H) :
    Triple (At hs code failed) (acquire handle : Prog H E (Option Nat))
      (Answered (fun n => [handle n]) hs code failed) thrown := by
  intro w at'
  have next := at'.answer
  simp only [acquire]
  split
  next given => exact { next with nodup := List.nodup_cons.mpr ⟨given.2, next.nodup⟩, held := next.held.cons _ }
  next => exact next.fail _

theorem release_spec (h : H) :
    Triple (At (h :: hs) code failed) (release h : Prog H E Unit) (fun _ w => ∃ c, At hs c failed w) thrown := by
  intro w at'
  have next := at'.answer
  have member : h ∈ w.answer.2.held := next.held.symm.subset List.mem_cons_self
  simp only [release, member, if_true]
  refine ⟨_, next.faults, next.nodup.erase h, ?_, rfl, next.failed⟩
  simpa using next.held.erase h

theorem releaseAll_spec (handles : List H) :
    Triple (At (handles ++ hs) code failed) (releaseAll handles : Prog H E Unit)
      (fun _ w => ∃ c, At hs c failed w) thrown := by
  induction handles generalizing code with
  | nil => exact Triple.pure () fun w at' => ⟨code, at'⟩
  | cons h rest ih => exact (release_spec h).bind fun _ => Triple.exists fun _ => ih

theorem abandon_spec (handles : List H) (error : Nat → E) :
    Triple (At (handles ++ hs) code failed) (abandon handles error : Prog H E A) post
      (fun e w => e = error code ∧ ∃ c, At hs c failed w) := by
  refine errno_spec.bind fun c w ⟨same, at'⟩ => ?_
  subst same
  refine ((releaseAll_spec handles).bind fun _ => Triple.exists fun c => ?_) w at'
  exact Triple.throw _ fun w' after => ⟨rfl, c, after⟩

end Calls

structure Moves (H E : Type) {Object : Type} (handles : Object → List H) where
  construct : Object → Object × Object
  assign : Object → Object → Prog H E (Object × Object)
  constructs : ∀ other, (handles (construct other).1 ++ handles (construct other).2).Perm (handles other)
  assigns : ∀ this other hs, Triple (Holds (handles this ++ (handles other ++ hs))) (assign this other)
    (fun r => Holds (handles r.1 ++ (handles r.2 ++ hs))) (fun _ _ => False)

/-- A constructor that throws gives back what it has opened; a destructor closes what
the object holds and does not throw. -/
structure Class (H E : Type) where
  Object : Type
  Args : Type
  construct : Args → Prog H E Object
  destroy : Object → Prog H E Unit
  handles : Object → List H
  moves : Option (Moves H E handles)
  constructs : ∀ args hs, Triple (Holds hs) (construct args) (fun o => Holds (handles o ++ hs)) (fun _ => Holds hs)
  destroys : ∀ o hs, Triple (Holds (handles o ++ hs)) (destroy o) (fun _ => Holds hs) (fun _ _ => False)

section Program

variable {H E I S : Type} [DecidableEq S] (C : I → Class H E)

abbrev Object := Σ c, (C c).Object

def Object.handles (o : Object C) : List H := (C o.1).handles o.2

structure Program (S : Type) where
  world : World H := {}
  objects : FiniteMap.Map S (Object C) := ∅

inductive Op (S : Type) where
  | construct (place : S) (c : I) (args : (C c).Args)
  | moveConstruct (place source : S)
  | moveAssign (place source : S)
  | destroy (place : S)

variable {C}

def owned (objects : FiniteMap.Map S (Object C)) : List H := objects.entries.flatMap fun e => Object.handles C e.2

def Owned (outside : List H) (p : Program C S) : Prop := Holds (owned p.objects ++ outside) p.world

theorem Holds.asked {hs : List H} {w : World H} (holds : Holds hs w) (answers : List Answer) :
    Holds hs { w with answers } := by
  obtain ⟨code, failed, at'⟩ := holds
  exact ⟨code, failed, { at' with }⟩

section Objects

variable {objects objects' : FiniteMap.Map S (Object C)} {place source : S} {o : Object C}

theorem owned_insert :
    owned (objects.insert place o) = Object.handles C o ++ owned (objects.erase place) := rfl

theorem owned_erase (found : objects.lookup place = some o) :
    (owned objects).Perm (Object.handles C o ++ owned (objects.erase place)) :=
  (FiniteMap.entries_perm found).flatMap_right _

theorem owned_fresh (absent : objects.lookup place = none) : owned (objects.erase place) = owned objects := by
  have same : objects.entries.kerase place = objects.entries :=
    List.kerase_of_notMem_keys (AList.lookup_eq_none.mp absent)
  exact congrArg (List.flatMap fun e => Object.handles C e.2) same

theorem owned_congr (same : ∀ k, objects.lookup k = objects'.lookup k) : (owned objects).Perm (owned objects') :=
  (List.lookup_ext objects.nodupKeys objects'.nodupKeys fun k o => by
    change o ∈ objects.lookup k ↔ o ∈ objects'.lookup k
    rw [same]).flatMap_right _

theorem erase_insert_apart (apart : place ≠ source) (k : S) :
    ((objects.insert source o).erase place).lookup k = ((objects.erase place).insert source o).lookup k := by
  simp only [FiniteMap.lookup_erase_eq, FiniteMap.lookup_insert_eq]
  split
  next here => rw [if_neg (here ▸ apart)]
  next => rfl

theorem owned_pair {o' : Object C} (apart : place ≠ source) :
    (owned ((objects.insert source o).insert place o')).Perm
      (Object.handles C o' ++ (Object.handles C o ++ owned ((objects.erase place).erase source))) := by
  rw [owned_insert]
  exact (owned_congr (erase_insert_apart apart)).append_left _

end Objects

section Owners

variable {p : Program C S} {outside : List H}

omit [DecidableEq S] in
theorem Owned.faults (owns : Owned outside p) : p.world.faults = [] := by
  obtain ⟨code, failed, at'⟩ := owns
  exact at'.faults

theorem Owned.mem_held (owns : Owned outside p) (h : H) :
    h ∈ p.world.held ↔ h ∈ outside ∨ ∃ place o, p.objects.lookup place = some o ∧ h ∈ Object.handles C o := by
  obtain ⟨code, failed, at'⟩ := owns
  rw [at'.held.mem_iff, List.mem_append, or_comm, owned, List.mem_flatMap]
  refine or_congr_right ⟨?_, ?_⟩
  · rintro ⟨⟨place, o⟩, entry, mine⟩
    exact ⟨place, o, FiniteMap.lookup_iff_entry.mpr entry, mine⟩
  · rintro ⟨place, o, found, mine⟩
    exact ⟨⟨place, o⟩, FiniteMap.lookup_iff_entry.mp found, mine⟩

theorem Owned.exclusive (owns : Owned outside p) {place place' : S} {o o' : Object C} {h : H}
    (here : p.objects.lookup place = some o) (there : p.objects.lookup place' = some o')
    (mine : h ∈ Object.handles C o) (yours : h ∈ Object.handles C o') : place = place' := by
  by_contra apart
  have rest : (p.objects.erase place).lookup place' = some o' := by
    rw [FiniteMap.lookup_erase_eq, if_neg (Ne.symm apart)]
    exact there
  obtain ⟨code, failed, at'⟩ := owns
  have alone := ((at'.held.trans ((owned_erase here).append_right _)).nodup_iff.mp at'.nodup).of_append_left
  exact List.disjoint_of_nodup_append alone mine ((owned_erase rest).symm.subset (List.mem_append_left _ yours))

theorem Owned.ended (owns : Owned outside p) (none : ∀ place, p.objects.lookup place = none) :
    p.world.held.Perm outside := by
  obtain ⟨code, failed, at'⟩ := owns
  have gone : owned p.objects = [] := by rw [FiniteMap.eq_empty none]; rfl
  simpa [gone] using at'.held

end Owners

variable [DecidableEq I]

-- An object is built where none lives, and is used and destroyed while it lives; move
-- assignment to itself returns at once.
def Program.apply (p : Program C S) (w : World H) : Op C S → Option (Program C S)
  | .construct place c args =>
    if p.objects.lookup place ≠ none then none
    else
      outcome (fun o w' => some { world := w', objects := p.objects.insert place ⟨c, o⟩ })
        (fun _ w' => some { p with world := w' }) ((C c).construct args w)
  | .moveConstruct place source =>
    match p.objects.lookup place, p.objects.lookup source with
    | none, some ⟨c, other⟩ =>
      (C c).moves.map fun m =>
        { world := w
          objects := (p.objects.insert source ⟨c, (m.construct other).2⟩).insert place ⟨c, (m.construct other).1⟩ }
    | _, _ => none
  | .moveAssign place source =>
    match p.objects.lookup place, p.objects.lookup source with
    | some ⟨c, this⟩, some ⟨d, other⟩ =>
      if place = source then some p
      else if same : d = c then
        (C c).moves.bind fun m =>
          outcome
            (fun r w' =>
              some { world := w', objects := (p.objects.insert source ⟨c, r.2⟩).insert place ⟨c, r.1⟩ })
            (fun _ _ => none) (m.assign this (same ▸ other) w)
      else none
    | _, _ => none
  | .destroy place =>
    match p.objects.lookup place with
    | none => none
    | some ⟨c, o⟩ => some { world := ((C c).destroy o w).2, objects := p.objects.erase place }

def step (p : Program C S) (a : Op C S × List Answer) : Option (Program C S) :=
  p.apply { p.world with answers := a.2 } a.1

section Steps

variable {p p' : Program C S} {outside : List H}

theorem construct_owned {place : S} {c : I} {args : (C c).Args} {w : World H}
    (holds : Holds (owned p.objects ++ outside) w) (taken : p.apply w (.construct place c args) = some p') :
    Owned outside p' := by
  simp only [Program.apply] at taken
  split at taken
  next => cases taken
  next vacant =>
    have absent : p.objects.lookup place = none := by simpa using vacant
    have built := (C c).constructs args _ w holds
    rcases ran : (C c).construct args w with ⟨e | o, w'⟩ <;> rw [ran] at built taken <;> cases taken
    · exact built
    · rw [Owned, owned_insert, owned_fresh absent, List.append_assoc]
      exact built

theorem moveConstruct_owned {place source : S} {w : World H} (holds : Holds (owned p.objects ++ outside) w)
    (taken : p.apply w (.moveConstruct place source) = some p') : Owned outside p' := by
  simp only [Program.apply] at taken
  split at taken
  next c other absent found =>
    obtain ⟨m, moves, rfl⟩ := Option.map_eq_some_iff.mp taken
    have apart : place ≠ source := by
      rintro rfl
      exact FiniteMap.absent_found absent found
    refine holds.perm (.append_right _ ?_)
    refine (owned_erase found).trans (.trans ?_ (owned_pair apart).symm)
    have gone : owned ((p.objects.erase place).erase source) = owned (p.objects.erase source) := by
      rw [AList.erase_erase, owned_fresh]
      rw [FiniteMap.lookup_erase_eq, if_neg apart]
      exact absent
    rw [gone, ← List.append_assoc]
    exact (m.constructs other).symm.append_right _
  next => cases taken

theorem moveAssign_owned {place source : S} {w : World H} (owns : Owned outside p)
    (holds : Holds (owned p.objects ++ outside) w)
    (taken : p.apply w (.moveAssign place source) = some p') : Owned outside p' := by
  simp only [Program.apply] at taken
  split at taken
  next c this d other here there =>
    split at taken
    next => exact Option.some.inj taken ▸ owns
    next apart =>
      split at taken
      next same =>
        subst same
        obtain ⟨m, moves, taken⟩ := Option.bind_eq_some_iff.mp taken
        have rest : (p.objects.erase place).lookup source = some ⟨_, other⟩ := by
          rw [FiniteMap.lookup_erase_eq, if_neg (Ne.symm apart)]
          exact there
        have split : (owned p.objects ++ outside).Perm ((C _).handles this ++
            ((C _).handles other ++ (owned ((p.objects.erase place).erase source) ++ outside))) := by
          refine (((owned_erase here).trans ((owned_erase rest).append_left _)).append_right _).trans ?_
          rw [List.append_assoc, List.append_assoc]
          rfl
        have assigned := m.assigns this other _ w (holds.perm split)
        rcases ran : m.assign this other w with ⟨e | r, w'⟩ <;> rw [ran] at assigned
        · exact assigned.elim
        · rw [ran] at taken
          cases taken
          refine assigned.perm (.trans ?_ ((owned_pair apart).append_right _).symm)
          rw [List.append_assoc, List.append_assoc]
          rfl
      next => cases taken
  next => cases taken

theorem destroy_owned {place : S} {w : World H} (holds : Holds (owned p.objects ++ outside) w)
    (taken : p.apply w (.destroy place) = some p') : Owned outside p' := by
  simp only [Program.apply] at taken
  split at taken
  next => cases taken
  next c o found =>
    cases taken
    have before := holds.perm ((owned_erase found).append_right _)
    rw [List.append_assoc] at before
    have closed := (C c).destroys o _ w before
    rcases ran : (C c).destroy o w with ⟨e | u, w'⟩ <;> rw [ran] at closed
    · exact closed.elim
    · exact closed

theorem step_owned {a : Op C S × List Answer} (owns : Owned outside p) (taken : step p a = some p') :
    Owned outside p' := by
  obtain ⟨op, answers⟩ := a
  have holds := Holds.asked owns answers
  cases op with
  | construct place c args => exact construct_owned holds taken
  | moveConstruct place source => exact moveConstruct_owned holds taken
  | moveAssign place source => exact moveAssign_owned owns holds taken
  | destroy place => exact destroy_owned holds taken

theorem reachable_owned {errno : Nat} (apart : outside.Nodup)
    (reached : Transition.Reachable step { world := { held := outside, errno } } p) : Owned outside p :=
  reached.invariant ⟨errno, none, rfl, apart, .refl _, rfl, rfl⟩ fun _ _ _ _ owns taken => step_owned owns taken

end Steps

end Program

end Ownership
