import Mathlib

set_option autoImplicit false

namespace ReleaseAcquire

/-- The store of each location that a thread must not read behind, and how many plain
accesses of each thread happened before. -/
structure View (Th L : Type) where
  latest : L → Nat
  known : Th → Nat

inductive Order where
  | relaxed
  | acquire
  deriving DecidableEq, Repr

-- A release store hands its thread's view on with the value.
structure Message (Th L V : Type) where
  value : V
  view : View Th L

structure Access (Th C : Type) where
  thread : Th
  time : Nat
  cell : C
  write : Bool
  known : Th → Nat

structure Memory (Th L : Type) (V : L → Type) (C W : Type) where
  history : (l : L) → List (Message Th L (V l))
  cell : C → W
  accesses : List (Access Th C) := []
  view : Th → View Th L

namespace View

variable {Th L : Type}

instance : Preorder (View Th L) := Preorder.lift fun v => (v.latest, v.known)

def start : View Th L := ⟨fun _ => 0, fun _ => 0⟩

def join (v w : View Th L) : View Th L := ⟨v.latest ⊔ w.latest, v.known ⊔ w.known⟩

theorem le_join_left (v w : View Th L) : v ≤ v.join w := ⟨fun _ => le_sup_left, fun _ => le_sup_left⟩

theorem le_join_right (v w : View Th L) : w ≤ v.join w := ⟨fun _ => le_sup_right, fun _ => le_sup_right⟩

section See

variable [DecidableEq L]

def see (v : View Th L) (l : L) (i : Nat) : View Th L := { v with latest := Function.update v.latest l i }

theorem see_latest (v : View Th L) (l : L) (i : Nat) : (v.see l i).latest l = i := Function.update_self ..

theorem see_latest_of_ne (v : View Th L) {k l : L} (apart : k ≠ l) (i : Nat) : (v.see l i).latest k = v.latest k :=
  Function.update_of_ne apart ..

theorem le_see {v : View Th L} {l : L} {i : Nat} (newer : v.latest l ≤ i) : v ≤ v.see l i :=
  ⟨le_update_iff.mpr ⟨newer, fun _ _ => le_rfl⟩, le_rfl⟩

theorem see_self (v : View Th L) (l : L) : v.see l (v.latest l) = v := by
  rw [see, Function.update_eq_self]

theorem see_join {v w : View Th L} {l : L} {i : Nat} (newer : v.latest l ≤ i) (stamped : w.latest l = i) :
    (v.see l i).join w = v.join w := by
  have same : (v.see l i).latest ⊔ w.latest = v.latest ⊔ w.latest := by
    funext k
    by_cases here : k = l
    · subst here
      rw [Pi.sup_apply, Pi.sup_apply, see_latest, stamped, max_self, max_eq_right newer]
    · rw [Pi.sup_apply, Pi.sup_apply, see_latest_of_ne v here]
  rw [join, join, same]
  rfl

end See

section Tick

variable [DecidableEq Th]

def tick (v : View Th L) (t : Th) : View Th L := { v with known := Function.update v.known t (v.known t + 1) }

theorem tick_known (v : View Th L) (t : Th) : (v.tick t).known t = v.known t + 1 := Function.update_self ..

theorem le_tick (v : View Th L) (t : Th) : v ≤ v.tick t :=
  ⟨le_rfl, le_update_iff.mpr ⟨Nat.le_succ _, fun _ _ => le_rfl⟩⟩

end Tick

end View

namespace Memory

variable {Th L C W : Type} {V : L → Type}

def init (value : (l : L) → V l) (blank : W) : Memory Th L V C W :=
  { history := fun l => [⟨value l, View.start⟩], cell := fun _ => blank, view := fun _ => View.start }

section Operations

variable [DecidableEq Th] (m : Memory Th L V C W)

def setView (t : Th) (v : View Th L) : Memory Th L V C W := { m with view := Function.update m.view t v }

def access (t : Th) (c : C) (write : Bool) : Memory Th L V C W :=
  { m.setView t ((m.view t).tick t) with
    accesses := m.accesses ++ [⟨t, (m.view t).known t, c, write, (m.view t).known⟩] }

def read (t : Th) (c : C) : W × Memory Th L V C W := (m.cell c, m.access t c false)

def write [DecidableEq C] (t : Th) (c : C) (value : W) : Memory Th L V C W :=
  { m.access t c true with cell := Function.update m.cell c value }

variable [DecidableEq L]

def seen (order : Order) (t : Th) (l : L) (i : Nat) (msg : Message Th L (V l)) : View Th L :=
  match order with
  | .relaxed => (m.view t).see l i
  | .acquire => ((m.view t).see l i).join msg.view

-- The load reads the store of number i.
def load (order : Order) (t : Th) (l : L) (i : Nat) : Option (V l × Memory Th L V C W) :=
  match (m.history l)[i]? with
  | none => none
  | some msg => if (m.view t).latest l ≤ i then some (msg.value, m.setView t (m.seen order t l i msg)) else none

-- A release store, by the location's writing thread.
def store (t : Th) (l : L) (value : V l) : Memory Th L V C W :=
  let view := (m.view t).see l (m.history l).length
  { m.setView t view with history := Function.update m.history l (m.history l ++ [⟨value, view⟩]) }

end Operations

section Rules

variable {m : Memory Th L V C W}

theorem le_seen [DecidableEq L] (order : Order) (t : Th) (l : L) (i : Nat) (msg : Message Th L (V l)) :
    i ≤ (m.seen order t l i msg).latest l := by
  cases order with
  | relaxed => exact (View.see_latest (m.view t) l i).ge
  | acquire => exact (View.see_latest (m.view t) l i).ge.trans ((View.le_join_left ((m.view t).see l i) msg.view).1 l)

variable [DecidableEq Th]

@[simp] theorem setView_self (t : Th) (v : View Th L) : (m.setView t v).view t = v := Function.update_self ..

theorem setView_of_ne {t u : Th} (apart : u ≠ t) (v : View Th L) : (m.setView t v).view u = m.view u :=
  Function.update_of_ne apart ..

@[simp] theorem access_self (t : Th) (c : C) (write : Bool) : (m.access t c write).view t = (m.view t).tick t :=
  setView_self t _

theorem access_of_ne {t u : Th} (apart : u ≠ t) (c : C) (write : Bool) : (m.access t c write).view u = m.view u :=
  setView_of_ne apart _

@[simp] theorem write_self [DecidableEq C] (t : Th) (c : C) (value : W) :
    (m.write t c value).view t = (m.view t).tick t := setView_self t _

theorem write_of_ne [DecidableEq C] {t u : Th} (apart : u ≠ t) (c : C) (value : W) :
    (m.write t c value).view u = m.view u := setView_of_ne apart _

@[simp] theorem store_self [DecidableEq L] (t : Th) (l : L) (value : V l) :
    (m.store t l value).view t = (m.view t).see l (m.history l).length := setView_self t _

theorem store_of_ne [DecidableEq L] {t u : Th} (apart : u ≠ t) (l : L) (value : V l) :
    (m.store t l value).view u = m.view u := setView_of_ne apart _

theorem load_newest [DecidableEq L] (order : Order) {t : Th} {l : L} {older : List (Message Th L (V l))}
    {msg : Message Th L (V l)} (history : m.history l = older ++ [msg])
    (within : (m.view t).latest l < (m.history l).length) :
    ∃ v, m.load order t l older.length = some (msg.value, m.setView t v) := by
  have stored : (m.history l)[older.length]? = some msg := by rw [history, List.getElem?_concat_length]
  have newest : (m.view t).latest l ≤ older.length := by
    rw [history, List.length_append, List.length_singleton] at within
    exact Nat.le_of_lt_succ within
  exact ⟨_, by rw [load, stored]; exact if_pos newest⟩

theorem store_history_self [DecidableEq L] (t : Th) (l : L) (value : V l) :
    (m.store t l value).history l = m.history l ++ [⟨value, (m.view t).see l (m.history l).length⟩] :=
  Function.update_self ..

theorem store_history_of_ne [DecidableEq L] {k l : L} (apart : k ≠ l) (t : Th) (value : V l) :
    (m.store t l value).history k = m.history k := Function.update_of_ne apart ..

theorem load_eq [DecidableEq L] {order : Order} {t : Th} {l : L} {i : Nat} {r : V l × Memory Th L V C W}
    (taken : m.load order t l i = some r) :
    ∃ msg, (m.history l)[i]? = some msg ∧ (m.view t).latest l ≤ i ∧
      r = (msg.value, m.setView t (m.seen order t l i msg)) := by
  unfold load at taken
  split at taken
  · cases taken
  next msg stored =>
    split at taken
    next newer => exact ⟨msg, stored, newer, (Option.some.inj taken).symm⟩
    · cases taken

end Rules

end Memory

section Races

variable {Th C : Type}

def Conflict (a b : Access Th C) : Prop := a.cell = b.cell ∧ a.thread ≠ b.thread ∧ (a.write = true ∨ b.write = true)

def HappensBefore (a b : Access Th C) : Prop := a.time < b.known a.thread

/-- Of any two conflicting accesses the one made first happens before the other. -/
def RaceFree (accesses : List (Access Th C)) : Prop := accesses.Pairwise fun a b => Conflict a b → HappensBefore a b

theorem RaceFree.append {accesses : List (Access Th C)} (free : RaceFree accesses) {b : Access Th C}
    (safe : ∀ a ∈ accesses, Conflict a b → HappensBefore a b) : RaceFree (accesses ++ [b]) :=
  List.pairwise_append.mpr ⟨free, List.pairwise_singleton .., fun a member _ last =>
    List.mem_singleton.mp last ▸ safe a member⟩

end Races

section Views

variable {Th L C W : Type} {V : L → Type}

structure Facts (Th L : Type) where
  holds : L → Nat → View Th L → Prop
  grows : ∀ l i v w, v ≤ w → holds l i v → holds l i w

variable (facts : Facts Th L)

def View.Has (v : View Th L) : Prop := ∀ l, facts.holds l (v.latest l) v

variable {facts}

theorem View.Has.join {v w : View Th L} (has : v.Has facts) (has' : w.Has facts) : (v.join w).Has facts := by
  intro l
  rcases le_total (v.latest l) (w.latest l) with newer | newer
  · rw [show (v.join w).latest l = w.latest l from sup_of_le_right newer]
    exact facts.grows _ _ _ _ (le_join_right v w) (has' l)
  · rw [show (v.join w).latest l = v.latest l from sup_of_le_left newer]
    exact facts.grows _ _ _ _ (le_join_left v w) (has l)

theorem View.Has.see [DecidableEq L] {v : View Th L} (has : v.Has facts) {l : L} {i : Nat} (newer : v.latest l ≤ i)
    (here : facts.holds l i (v.see l i)) : (v.see l i).Has facts := by
  intro k
  by_cases same : k = l
  · subst same
    rw [see_latest]
    exact here
  · rw [see_latest_of_ne v same]
    exact facts.grows _ _ _ _ (le_see newer) (has k)

theorem View.Has.tick [DecidableEq Th] {v : View Th L} (has : v.Has facts) (t : Th) : (v.tick t).Has facts :=
  fun l => facts.grows _ _ _ _ (le_tick v t) (has l)

namespace Memory

structure Everywhere (m : Memory Th L V C W) (holds : View Th L → Prop) : Prop where
  threads : ∀ t, holds (m.view t)
  messages : ∀ l, ∀ msg ∈ m.history l, holds msg.view

structure Sound (facts : Facts Th L) (writer : L → Th) (m : Memory Th L V C W) : Prop where
  has : m.Everywhere (View.Has facts)
  within : m.Everywhere fun v => ∀ l, v.latest l < (m.history l).length
  past : m.Everywhere fun v => ∀ t, v.known t ≤ (m.view t).known t
  stamped : ∀ (l : L) (i : Nat) (msg : Message Th L (V l)), (m.history l)[i]? = some msg → msg.view.latest l = i
  latest : ∀ l, (m.view (writer l)).latest l + 1 = (m.history l).length

variable {writer : L → Th} {m : Memory Th L V C W}

theorem init_sound (value : (l : L) → V l) (blank : W)
    (start : (View.start : View Th L).Has facts) : (init value blank : Memory Th L V C W).Sound facts writer where
  has := ⟨fun _ => start, fun l msg member => List.mem_singleton.mp member ▸ start⟩
  within := ⟨fun _ _ => Nat.one_pos, fun l msg member _ => List.mem_singleton.mp member ▸ Nat.one_pos⟩
  past := ⟨fun _ _ => Nat.le_refl 0, fun l msg member _ => List.mem_singleton.mp member ▸ Nat.le_refl 0⟩
  stamped l i msg stored := by
    obtain ⟨inside, rfl⟩ := List.getElem?_eq_some_iff.mp stored
    simp only [init, List.length_singleton] at inside
    simp [init, View.start, Nat.lt_one_iff.mp inside]
  latest _ := rfl

theorem Sound.seen [DecidableEq L] (sound : m.Sound facts writer) {order : Order} {t : Th} {l : L} {i : Nat}
    {msg : Message Th L (V l)} (allowed : order = .acquire ∨ t = writer l) (newer : (m.view t).latest l ≤ i)
    (stored : (m.history l)[i]? = some msg) :
    (m.seen order t l i msg).Has facts ∧ m.view t ≤ m.seen order t l i msg ∧
      (∀ k, (m.seen order t l i msg).latest k < (m.history k).length) ∧
      ∀ u, (m.seen order t l i msg).known u ≤ (m.view u).known u := by
  have member := List.mem_of_getElem? stored
  cases order with
  | acquire =>
    rw [Memory.seen, View.see_join newer (sound.stamped l i msg stored)]
    exact ⟨(sound.has.threads t).join (sound.has.messages l msg member), View.le_join_left _ _, fun k =>
      max_lt (sound.within.threads t k) (sound.within.messages l msg member k), fun u =>
      max_le (sound.past.threads t u) (sound.past.messages l msg member u)⟩
  | relaxed =>
    obtain rfl : t = writer l := allowed.resolve_left (by decide)
    have inside := (List.getElem?_eq_some_iff.mp stored).1
    have last := sound.latest l
    obtain rfl : i = (m.view (writer l)).latest l := by omega
    rw [Memory.seen, View.see_self]
    exact ⟨sound.has.threads _, le_rfl, sound.within.threads _, sound.past.threads _⟩

theorem Sound.seen_clock [DecidableEq L] (sound : m.Sound facts writer) {order : Order} {t : Th} {l : L} {i : Nat}
    {msg : Message Th L (V l)} (allowed : order = .acquire ∨ t = writer l) (newer : (m.view t).latest l ≤ i)
    (stored : (m.history l)[i]? = some msg) : (m.seen order t l i msg).known t = (m.view t).known t := by
  obtain ⟨-, grown, -, past⟩ := sound.seen allowed newer stored
  exact Nat.le_antisymm (past t) (grown.2 t)

variable [DecidableEq Th]

theorem Everywhere.setView {holds : View Th L → Prop} (everywhere : m.Everywhere holds) {t : Th} {v : View Th L}
    (here : holds v) : (m.setView t v).Everywhere holds where
  threads u := by
    by_cases same : u = t
    · subst same
      rw [setView_self]
      exact here
    · rw [setView_of_ne same]
      exact everywhere.threads u
  messages := everywhere.messages

theorem setView_clocks {t : Th} {v : View Th L} (newer : m.view t ≤ v) (u : Th) :
    (m.view u).known u ≤ ((m.setView t v).view u).known u := by
  by_cases same : u = t
  · subst same
    rw [setView_self]
    exact newer.2 u
  · rw [setView_of_ne same]

theorem Sound.setView (sound : m.Sound facts writer) {t : Th} {v : View Th L} (has : v.Has facts)
    (newer : m.view t ≤ v) (within : ∀ l, v.latest l < (m.history l).length)
    (past : ∀ u, u ≠ t → v.known u ≤ (m.view u).known u) : (m.setView t v).Sound facts writer where
  has := sound.has.setView has
  within := sound.within.setView within
  past := by
    have clocks := setView_clocks newer
    refine ⟨fun w u => ?_, fun l msg member u => (sound.past.messages l msg member u).trans (clocks u)⟩
    by_cases mine : w = t
    · subst mine
      rw [setView_self]
      by_cases same : u = w
      · subst same
        rw [setView_self]
      · rw [setView_of_ne same]
        exact past u same
    · rw [setView_of_ne mine]
      exact (sound.past.threads w u).trans (clocks u)
  stamped := sound.stamped
  latest l := by
    have here := sound.latest l
    by_cases same : writer l = t
    · have grown : (m.view t).latest l ≤ v.latest l := newer.1 l
      have bound := within l
      rw [same] at here ⊢
      rw [setView_self]
      change v.latest l + 1 = (m.history l).length
      omega
    · rw [setView_of_ne same]
      exact here

theorem Sound.access (sound : m.Sound facts writer) (t : Th) (c : C) (write : Bool) :
    (m.access t c write).Sound facts writer := by
  have ticked := sound.setView ((sound.has.threads t).tick t) (View.le_tick _ t) (sound.within.threads t)
    fun u apart => (Function.update_of_ne apart ..).le.trans (sound.past.threads t u)
  exact ⟨⟨ticked.has.threads, ticked.has.messages⟩, ⟨ticked.within.threads, ticked.within.messages⟩,
    ⟨ticked.past.threads, ticked.past.messages⟩, ticked.stamped, ticked.latest⟩

theorem Sound.write [DecidableEq C] (sound : m.Sound facts writer) (t : Th) (c : C) (value : W) :
    (m.write t c value).Sound facts writer := by
  have accessed := sound.access t c true
  exact ⟨⟨accessed.has.threads, accessed.has.messages⟩, ⟨accessed.within.threads, accessed.within.messages⟩,
    ⟨accessed.past.threads, accessed.past.messages⟩, accessed.stamped, accessed.latest⟩

variable [DecidableEq L]

theorem Sound.load (sound : m.Sound facts writer) {order : Order} {t : Th} {l : L} {i : Nat}
    {msg : Message Th L (V l)} (allowed : order = .acquire ∨ t = writer l) (newer : (m.view t).latest l ≤ i)
    (stored : (m.history l)[i]? = some msg) : (m.setView t (m.seen order t l i msg)).Sound facts writer := by
  obtain ⟨has, grown, within, past⟩ := sound.seen allowed newer stored
  exact sound.setView has grown within fun u _ => past u

theorem store_length (t : Th) (l : L) (value : V l) (k : L) :
    ((m.store t l value).history k).length = (m.history k).length + if k = l then 1 else 0 := by
  by_cases same : k = l
  · subst same
    rw [store_history_self, if_pos rfl, List.length_append, List.length_singleton]
  · rw [store_history_of_ne same, if_neg same, Nat.add_zero]

theorem store_get {t : Th} {l : L} {value : V l} {k : L} {i : Nat} {msg : Message Th L (V k)}
    (stored : ((m.store t l value).history k)[i]? = some msg) :
    (m.history k)[i]? = some msg ∨
      (k = l ∧ i = (m.history k).length ∧ msg.view = (m.view t).see l (m.history l).length) := by
  by_cases same : k = l
  · subst same
    rw [store_history_self, List.getElem?_append] at stored
    split at stored
    · exact .inl stored
    next outside =>
      rw [List.getElem?_singleton] at stored
      split at stored
      next last =>
        obtain rfl := Option.some.inj stored
        exact .inr ⟨rfl, by omega, rfl⟩
      · cases stored
  · rw [store_history_of_ne same] at stored
    exact .inl stored

theorem store_known (t : Th) (l : L) (value : V l) (u : Th) :
    ((m.store t l value).view u).known = (m.view u).known := by
  by_cases same : u = t
  · rw [same, store_self]
    rfl
  · rw [store_of_ne same]

theorem Sound.store (sound : m.Sound facts writer) {l : L} (value : V l)
    (here : facts.holds l (m.history l).length ((m.view (writer l)).see l (m.history l).length)) :
    (m.store (writer l) l value).Sound facts writer := by
  have last := sound.latest l
  have newer : (m.view (writer l)).latest l ≤ (m.history l).length := by omega
  have has := (sound.has.threads (writer l)).see newer here
  have old (v : View Th L) (within : ∀ k, v.latest k < (m.history k).length) (k : L) :
      v.latest k < ((m.store (writer l) l value).history k).length := by
    rw [store_length]
    exact Nat.lt_add_right _ (within k)
  have new (k : L) : ((m.view (writer l)).see l (m.history l).length).latest k <
      ((m.store (writer l) l value).history k).length := by
    rw [store_length]
    by_cases same : k = l
    · subst same
      rw [View.see_latest, if_pos rfl]
      exact Nat.lt_succ_self _
    · rw [View.see_latest_of_ne _ same, if_neg same]
      exact sound.within.threads _ k
  refine ⟨⟨(sound.has.setView has).threads, fun k msg member => ?_⟩, ⟨fun u => ?_, fun k msg member => ?_⟩,
    ⟨fun w u => ?_, fun k msg member u => ?_⟩, ?_, ?_⟩
  · obtain ⟨i, stored⟩ := List.getElem?_of_mem member
    rcases store_get stored with before | ⟨-, -, view⟩
    · exact sound.has.messages k msg (List.mem_of_getElem? before)
    · rw [view]
      exact has
  · by_cases same : u = writer l
    · subst same
      rw [store_self]
      exact new
    · rw [store_of_ne same]
      exact old _ (sound.within.threads u)
  · obtain ⟨i, stored⟩ := List.getElem?_of_mem member
    rcases store_get stored with before | ⟨-, -, view⟩
    · exact old _ (sound.within.messages k msg (List.mem_of_getElem? before))
    · rw [view]
      exact new
  · rw [store_known, store_known]
    exact sound.past.threads w u
  · rw [store_known]
    obtain ⟨i, stored⟩ := List.getElem?_of_mem member
    rcases store_get stored with before | ⟨-, -, view⟩
    · exact sound.past.messages k msg (List.mem_of_getElem? before) u
    · rw [view]
      exact sound.past.threads (writer l) u
  · intro k i msg stored
    rcases store_get stored with before | ⟨rfl, rfl, view⟩
    · exact sound.stamped k i msg before
    · rw [view, View.see_latest]
  · intro k
    rw [store_length]
    by_cases mine : writer k = writer l
    · rw [mine, store_self]
      by_cases same : k = l
      · subst same
        rw [View.see_latest, if_pos rfl]
      · rw [View.see_latest_of_ne _ same, if_neg same, ← mine]
        exact sound.latest k
    · have apart : k ≠ l := fun same => mine (by rw [same])
      rw [store_of_ne mine, if_neg apart]
      exact sound.latest k

end Memory

end Views

end ReleaseAcquire
