import ItchLob.Net.QueryConsistency
import ItchLob.Pipeline.PublishingHandler
import ItchLob.Pipeline.ReplayReport

set_option autoImplicit false

namespace ItchLob.Net

open Pipeline Itch QueryWire

section Replay

variable {B : Type} (api : BookType B) (reads : BookReads B) (every : Nat) (seen : List Itch.Event)

def rounds : Nat := (touching seen).length / every

def stage (k : Nat) : BookBuilder B :=
  if k ≤ rounds every seen then cut api every seen k else BookBuilder.build api seen

def Publish.of (h : BookBuilder B) : Publish := ⟨snapshotBookTable reads h.books, h.unknownRefs⟩

def publishes : List Publish :=
  (List.range (rounds every seen + 1)).map fun i => Publish.of reads (stage api every seen (i + 1))

variable {api reads every seen}

theorem stage_cut {k : Nat} (within : k ≤ rounds every seen) : stage api every seen k = cut api every seen k :=
  if_pos within

theorem stage_final : stage api every seen (rounds every seen + 1) = BookBuilder.build api seen :=
  if_neg (Nat.not_succ_le_self _)

variable (api reads) in
theorem publishes_length : (publishes api reads every seen).length = rounds every seen + 1 := by
  rw [publishes, List.length_map, List.length_range]

theorem publishes_take {k : Nat} (within : k ≤ rounds every seen) :
    (publishes api reads every seen).take (k + 1) =
      (publishes api reads every seen).take k ++ [Publish.of reads (stage api every seen (k + 1))] := by
  have inside : k < (publishes api reads every seen).length := by
    rw [publishes_length]
    exact Nat.lt_succ_of_le within
  rw [List.take_succ_eq_append_getElem inside]
  simp only [publishes, List.getElem_map, List.getElem_range]

theorem publish_number {k : Nat} (within : k ≤ rounds every seen) :
    published ((publishes api reads every seen).take (k + 1)) =
      (published ((publishes api reads every seen).take k)).publish
        (snapshotBookTable reads (stage api every seen (k + 1)).books)
        (stage api every seen (k + 1)).unknownRefs := by
  rw [publishes_take within, published_append]
  rfl

variable (api reads) in
theorem published_describes {k : Nat} (within : k ≤ rounds every seen + 1) :
    Describes reads (published ((publishes api reads every seen).take k)) (stage api every seen k) := by
  cases k with
  | zero =>
    have start : stage api every seen 0 = {} := by
      rw [stage_cut (Nat.zero_le _), cut, Nat.zero_mul, List.take_zero]
      rfl
    rw [start, List.take_zero]
    refine ⟨rfl, rfl, fun locate => ?_⟩
    have missing : (({} : BookBuilder B).books.find locate) = none := if_pos (Nat.zero_le _)
    rw [missing]
    exact .none
  | succ k =>
    rw [publish_number (Nat.le_of_succ_le_succ within), stage]
    split
    · exact publish_describes api reads _ _
    · exact publish_describes api reads _ _

theorem take_version {k : Nat} (within : k ≤ rounds every seen + 1) (few : rounds every seen + 1 < 2 ^ 64) :
    (published ((publishes api reads every seen).take k)).version.toNat = k := by
  have size : ((publishes api reads every seen).take k).length = k := by
    rw [List.length_take, publishes_length, Nat.min_eq_left within]
  rw [published_version, size, UInt64.toNat_ofNat_of_lt' (Nat.lt_of_le_of_lt within few)]

theorem rounds_mono {earlier more : List Itch.Event} : rounds every earlier ≤ rounds every (earlier ++ more) := by
  rw [rounds, rounds, touching_append, List.length_append]
  exact Nat.div_le_div_right (Nat.le_add_right _ _)

theorem publishes_append (earlier more : List Itch.Event) :
    (publishes api reads every (earlier ++ more)).take (rounds every earlier) =
      (publishes api reads every earlier).take (rounds every earlier) := by
  have grown : rounds every earlier ≤ rounds every (earlier ++ more) := rounds_mono
  apply List.ext_getElem
  · simp only [List.length_take, publishes_length]
    omega
  · intro i inside _
    have small : i + 1 ≤ rounds every earlier := by
      rw [List.length_take] at inside
      omega
    have room : (i + 1) * every ≤ (touching earlier).length :=
      Nat.le_trans (Nat.mul_le_mul_right every small) (Nat.div_mul_le_self _ _)
    simp only [List.getElem_take, publishes, List.getElem_map, List.getElem_range]
    rw [stage_cut (Nat.le_trans small grown), stage_cut small, cut_append room]

theorem store_ext {s t : SnapshotStore} (entries : s.readAll = t.readAll) (version : s.version = t.version)
    (refs : s.unknownRefs = t.unknownRefs) : s = t := by
  obtain ⟨data, number, unknown⟩ := s
  obtain ⟨data', number', unknown'⟩ := t
  obtain rfl : data = data' := entries
  obtain rfl : number = number' := version
  obtain rfl : unknown = unknown' := refs
  rfl

theorem handler_store (api : BookType B) (reads : BookReads B) (every : Nat) (earlier : List Itch.Event) :
    (earlier.foldl (fun h e => PublishingHandler.handler api reads e h) { publishEvery := every }).store =
      published ((publishes api reads every earlier).take (rounds every earlier)) := by
  have state := publishes_seen api reads every earlier
  generalize earlier.foldl (fun h e => PublishingHandler.handler api reads e h) { publishEvery := every } = h at state
  rcases Nat.eq_zero_or_pos (rounds every earlier) with zero | positive
  · rw [zero, List.take_zero]
    exact state.fresh zero
  · have latest := state.latest positive
    have described := published_describes api reads (Nat.le_succ (rounds every earlier))
    rw [stage_cut (Nat.le_refl _)] at described
    have size : ((publishes api reads every earlier).take (rounds every earlier)).length = rounds every earlier := by
      rw [List.length_take, publishes_length, Nat.min_eq_left (Nat.le_succ _)]
    have version : h.store.version =
        (published ((publishes api reads every earlier).take (rounds every earlier))).version := by
      rw [published_version, size]
      exact state.version
    exact store_ext (latest.entries.trans described.entries.symm) version
      (latest.unknownRefs.trans described.unknownRefs.symm)

theorem run_store (api : BookType B) (reads : BookReads B) (every : Nat) (data : List UInt8) :
    (PublishingHandler.run api reads every data).1.store = published (publishes api reads every (events data)) := by
  have whole : (publishes api reads every (events data)).take (rounds every (events data) + 1) =
      publishes api reads every (events data) := by
    rw [← publishes_length api reads, List.take_length]
  rw [← whole, publish_number (Nat.le_refl _), stage_final, ← handler_store, PublishingHandler.run,
    parseStream_events, PublishingHandler.publish]
  exact congrArg₂ (SnapshotStore.publish _) (by rw [(publishes_seen api reads every (events data)).inner])
    (by rw [(publishes_seen api reads every (events data)).inner])

/-- Something holds of a builder that was published while the request was running:
publish number first was the last one when it began, number last when it was done. -/
def During (first last : Nat) (holds : Nat → Prop) : Prop := ∃ k, first ≤ k ∧ k ≤ last ∧ holds k

section Request

variable (api reads every seen)

def AnswersReplay (first last : Nat) : Request → Reply → Prop
  | .refused msg, reply => reply = .error msg
  | .quote locate, reply =>
    (reply = .errorLocate "unknown locate" locate ∧
      During first last fun k => (stage api every seen k).books.find locate = none) ∨
    ∃ q snapshotVersion unknownRefs, reply = .quote q snapshotVersion unknownRefs ∧
      (During first last fun k => ∃ b, (stage api every seen k).books.find locate = some b ∧ Shows reads locate b q) ∧
      (During first last fun k => snapshotVersion.toNat = k) ∧
      During first last fun k => unknownRefs = (stage api every seen k).unknownRefs
  | .list, reply =>
    ∃ all snapshotVersion unknownRefs, reply = .list all snapshotVersion unknownRefs ∧
      (During first last fun k => all = snapshotBookTable reads (stage api every seen k).books) ∧
      (During first last fun k => snapshotVersion.toNat = k) ∧
      During first last fun k => unknownRefs = (stage api every seen k).unknownRefs

end Request

structure Amid (api : BookType B) (reads : BookReads B) (every : Nat) (seen : List Itch.Event) (first last : Nat)
    (now : List Publish) : Prop where
  begun : first ≤ now.length
  before : now.length ≤ last
  whole : now = (publishes api reads every seen).take now.length
  number : now.length ≤ rounds every seen + 1

variable {first last : Nat} {now : List Publish}

theorem Amid.version (amid : Amid api reads every seen first last now) (few : rounds every seen + 1 < 2 ^ 64) :
    During first last fun k => (published now).version.toNat = k := by
  refine ⟨now.length, amid.begun, amid.before, ?_⟩
  rw [amid.whole, take_version amid.number few, List.length_take, publishes_length, Nat.min_eq_left amid.number]

theorem Amid.describes (amid : Amid api reads every seen first last now) :
    Describes reads (published now) (stage api every seen now.length) := by
  have described := published_describes api reads amid.number
  rw [← amid.whole] at described
  exact described

theorem Amid.unknownRefs (amid : Amid api reads every seen first last now) :
    During first last fun k => (published now).unknownRefs = (stage api every seen k).unknownRefs :=
  ⟨now.length, amid.begun, amid.before, amid.describes.unknownRefs⟩

theorem Amid.entries (amid : Amid api reads every seen first last now) :
    During first last fun k => (published now).readAll = snapshotBookTable reads (stage api every seen k).books :=
  ⟨now.length, amid.begun, amid.before, amid.describes.entries⟩

theorem Amid.missing (amid : Amid api reads every seen first last now) {locate : UInt16}
    (missing : (published now).find locate = none) :
    During first last fun k => (stage api every seen k).books.find locate = none := by
  refine ⟨now.length, amid.begun, amid.before, ?_⟩
  have same := amid.describes.found locate
  rw [missing] at same
  cases book : (stage api every seen now.length).books.find locate with
  | none => exact book
  | some b =>
    rw [book] at same
    cases same

theorem Amid.found (amid : Amid api reads every seen first last now) {locate : UInt16} {q : LocateSnapshot}
    (here : (published now).find locate = some q) :
    During first last fun k => ∃ b, (stage api every seen k).books.find locate = some b ∧ Shows reads locate b q := by
  refine ⟨now.length, amid.begun, amid.before, ?_⟩
  have same := amid.describes.found locate
  rw [here] at same
  cases book : (stage api every seen now.length).books.find locate with
  | none =>
    rw [book] at same
    cases same
  | some b =>
    rw [book] at same
    cases same with
    | some shows => exact ⟨b, book, shows⟩

theorem amid_within {past finish : List Publish} (within : finish <+: publishes api reads every seen)
    (begun : past <+: now) (before : now <+: finish) : Amid api reads every seen past.length finish.length now where
  begun := begun.length_le
  before := before.length_le
  whole := List.prefix_iff_eq_take.mp (before.trans within)
  number := publishes_length api reads ▸ (before.trans within).length_le

section Answers

variable {past gap second third : List Publish}
  (within : past ++ gap ++ second ++ third <+: publishes api reads every seen)
include within

theorem request_amid :
    let amid := Amid api reads every seen past.length (past ++ gap ++ second ++ third).length
    amid (past ++ gap) ∧ amid (past ++ gap ++ second) ∧ amid (past ++ gap ++ second ++ third) := by
  refine ⟨amid_within within ?_ ?_, amid_within within ?_ ?_, amid_within within ?_ ?_⟩ <;>
    simp [List.append_assoc]

theorem request_answers (lists : ListOrder) (quotes : QuoteOrder) (line : Text)
    (few : rounds every seen + 1 < 2 ^ 64) :
    AnswersReplay api reads every seen past.length (past ++ gap ++ second ++ third).length (requestOf line)
      ((handleLine lists quotes line).run past [gap, second, third]) := by
  obtain ⟨one, two, three⟩ := request_amid within
  rw [handleLine_request]
  cases requestOf line with
  | refused msg => rfl
  | list =>
    obtain ⟨m, here, -, ran⟩ := listReply_run past gap second third lists
    obtain ⟨data, version, refs⟩ : Amid api reads every seen past.length _ m.data ∧
        Amid api reads every seen past.length _ m.version ∧
          Amid api reads every seen past.length _ m.unknownRefs := by
      rw [here]
      cases lists <;> exact ⟨by assumption, by assumption, by assumption⟩
    exact ⟨_, _, _, ran, data.entries, version.version few, refs.unknownRefs⟩
  | quote locate =>
    simp only [Reader.run, List.headD_cons, List.tail_cons]
    cases found : (published (past ++ gap)).find locate with
    | none => exact .inl ⟨rfl, one.missing found⟩
    | some q =>
      obtain ⟨m, here, -, -, ran⟩ := quoteReply_run past gap second third quotes q
      obtain ⟨version, refs⟩ : Amid api reads every seen past.length _ m.version ∧
          Amid api reads every seen past.length _ m.unknownRefs := by
        rw [here]
        cases quotes <;> exact ⟨by assumption, by assumption⟩
      exact .inr ⟨q, _, _, ran, one.found found, version.version few, refs.unknownRefs⟩

end Answers

structure Grown (h k : BookBuilder B) : Prop where
  known : ∀ locate, h.books.find locate ≠ none → k.books.find locate ≠ none
  unknownRefs : h.unknownRefs ≤ k.unknownRefs

theorem handler_known (e : Itch.Event) (h : BookBuilder B) (locate : UInt16) (known : h.books.find locate ≠ none) :
    (BookBuilder.handler api e h).books.find locate ≠ none := by
  cases asks : BookBuilder.request e with
  | none => cases e <;> simp [BookBuilder.request] at asks; exact known
  | some r =>
    rw [BookBuilder.request_find api asks]
    split
    · exact Option.some_ne_none _
    · exact known

theorem build_unknownRefs (api : BookType B) (more : List Itch.Event) (small : more.length < 2 ^ 64) :
    (BookBuilder.build api more).unknownRefs.toNat ≤ more.length := by
  induction more using List.reverseRecOn with
  | nil => exact Nat.le_refl 0
  | append_singleton more e ih =>
    rw [List.length_append, List.length_singleton] at small ⊢
    have earlier := ih (Nat.lt_of_succ_lt small)
    rw [BookBuilder.build_append]
    rcases handler_unknownRefs api (BookBuilder.build api more) e with ⟨-, same⟩ | ⟨-, counted⟩
    · rw [same]
      exact Nat.le_succ_of_le earlier
    · rw [counted, UInt64.toNat_add]
      exact Nat.le_trans (Nat.mod_le _ _) (Nat.succ_le_succ earlier)

theorem build_grown (api : BookType B) (early more : List Itch.Event) (small : (early ++ more).length < 2 ^ 64) :
    Grown (BookBuilder.build api early) (BookBuilder.build api (early ++ more)) := by
  induction more using List.reverseRecOn with
  | nil =>
    rw [List.append_nil]
    exact ⟨fun _ known => known, UInt64.le_refl _⟩
  | append_singleton more e ih =>
    rw [← List.append_assoc, List.length_append, List.length_singleton] at small
    obtain ⟨known, refs⟩ := ih (Nat.lt_of_succ_lt small)
    rw [← List.append_assoc, BookBuilder.build_append]
    refine ⟨fun locate here => handler_known e _ locate (known locate here), ?_⟩
    rcases handler_unknownRefs api (BookBuilder.build api (early ++ more)) e with ⟨-, same⟩ | ⟨-, counted⟩
    · rw [same]
      exact refs
    · have bound := build_unknownRefs api (early ++ more) (Nat.lt_of_succ_lt small)
      have next : (BookBuilder.build api (early ++ more)).unknownRefs.toNat + 1 < 2 ^ 64 := by omega
      rw [counted, UInt64.le_iff_toNat_le, UInt64.toNat_add, UInt64.toNat_one, Nat.mod_eq_of_lt next]
      exact Nat.le_succ_of_le (UInt64.le_iff_toNat_le.mp refs)

theorem Grown.alike {h k h' k' : BookBuilder B} (grown : Grown h k) (first : Alike h' h) (second : Alike k' k) :
    Grown h' k' := by
  obtain ⟨books, refs⟩ := first
  obtain ⟨books', refs'⟩ := second
  exact ⟨fun locate => books ▸ books' ▸ grown.known locate, refs ▸ refs' ▸ grown.unknownRefs⟩

variable (api) in
theorem stage_grown (few : seen.length < 2 ^ 64) {k l : Nat} (order : k ≤ l) (within : l ≤ rounds every seen + 1) :
    Grown (stage api every seen k) (stage api every seen l) := by
  have fewer : (touching seen).length < 2 ^ 64 := Nat.lt_of_le_of_lt (List.length_filter_le ..) few
  have whole (early : List Itch.Event) (begins : early <+: touching seen) :
      Grown (BookBuilder.build api early) (BookBuilder.build api (touching seen)) := by
    obtain ⟨more, same⟩ := begins
    rw [← same] at fewer ⊢
    exact build_grown api early more fewer
  rcases Nat.lt_or_eq_of_le within with cuts | final
  · have cuts := Nat.le_of_lt_succ cuts
    rw [stage_cut cuts, stage_cut (Nat.le_trans order cuts), cut, cut]
    obtain ⟨more, same⟩ : (touching seen).take (k * every) <+: (touching seen).take (l * every) :=
      List.take_prefix_take_left (Nat.mul_le_mul_right every order)
    have part : ((touching seen).take (l * every)).length < 2 ^ 64 :=
      Nat.lt_of_le_of_lt (List.length_take_le' ..) fewer
    rw [← same] at part ⊢
    exact build_grown api _ more part
  · subst final
    rw [stage_final]
    rcases Nat.lt_or_eq_of_le order with cuts | final
    · rw [stage_cut (Nat.le_of_lt_succ cuts), cut]
      exact (whole _ (List.take_prefix _ _)).alike ⟨rfl, rfl⟩ (build_touching api seen)
    · subst final
      rw [stage_final]
      exact ⟨fun _ known => known, UInt64.le_refl _⟩

def Reply.counters : Reply → Option (UInt64 × UInt64)
  | .quote _ snapshotVersion unknownRefs | .list _ snapshotVersion unknownRefs => some (snapshotVersion, unknownRefs)
  | .error _ | .errorLocate _ _ => none

def Reply.locates : Reply → List UInt16
  | .quote q _ _ => [q.locate]
  | .list all _ _ => all.map LocateSnapshot.locate
  | .error _ | .errorLocate _ _ => []

theorem answers_counters {asked : Request} {reply : Reply}
    (answers : AnswersReplay api reads every seen first last asked reply) {v u : UInt64}
    (counters : reply.counters = some (v, u)) :
    (During first last fun k => v.toNat = k) ∧
      During first last fun k => u = (stage api every seen k).unknownRefs := by
  cases asked with
  | refused msg =>
    obtain rfl : reply = .error msg := answers
    simp [Reply.counters] at counters
  | list =>
    obtain ⟨all, v', u', rfl, -, version, refs⟩ := answers
    simp only [Reply.counters, Option.some.injEq, Prod.mk.injEq] at counters
    exact ⟨counters.1 ▸ version, counters.2 ▸ refs⟩
  | quote locate =>
    rcases answers with ⟨rfl, -⟩ | ⟨q, v', u', rfl, -, version, refs⟩
    · simp [Reply.counters] at counters
    · simp only [Reply.counters, Option.some.injEq, Prod.mk.injEq] at counters
      exact ⟨counters.1 ▸ version, counters.2 ▸ refs⟩

theorem stage_narrow (k : Nat) : (stage api every seen k).books.slots.length ≤ 65536 := by
  rw [stage]
  split
  · exact BookBuilder.build_small api _
  · exact BookBuilder.build_small api _

theorem mem_snapshotBookTable {books : BookTable B} (narrow : books.slots.length ≤ 65536) (locate : UInt16) :
    locate ∈ (snapshotBookTable reads books).map LocateSnapshot.locate ↔ books.find locate ≠ none := by
  have found := snapshotBookTable_find reads narrow locate
  constructor
  · intro inside missing
    obtain ⟨s, member, same⟩ := List.mem_map.mp inside
    rw [missing, Option.map_none, List.find?_eq_none] at found
    exact found s member (decide_eq_true same)
  · intro known
    obtain ⟨b, here⟩ := Option.ne_none_iff_exists'.mp known
    rw [here, Option.map_some] at found
    have same := List.find?_some found
    exact List.mem_map.mpr ⟨_, List.mem_of_find?_eq_some found, of_decide_eq_true same⟩

theorem answers_locates {asked : Request} {reply : Reply}
    (answers : AnswersReplay api reads every seen first last asked reply) {locate : UInt16}
    (member : locate ∈ reply.locates) :
    During first last fun k => (stage api every seen k).books.find locate ≠ none := by
  cases asked with
  | refused msg =>
    obtain rfl : reply = .error msg := answers
    cases member
  | list =>
    obtain ⟨all, v, u, rfl, ⟨k, lower, upper, rfl⟩, -, -⟩ := answers
    exact ⟨k, lower, upper, (mem_snapshotBookTable (stage_narrow k) locate).mp member⟩
  | quote asked =>
    rcases answers with ⟨rfl, -⟩ | ⟨q, v, u, rfl, ⟨k, lower, upper, b, found, shows⟩, -, -⟩
    · cases member
    · obtain rfl : locate = asked := (List.mem_singleton.mp member).trans shows.locate
      exact ⟨k, lower, upper, ne_of_eq_of_ne found (Option.some_ne_none b)⟩

theorem locates_answers {asked : Request} {reply : Reply}
    (answers : AnswersReplay api reads every seen first last asked reply) {locate : UInt16}
    (about : asked = .quote locate ∨ asked = .list)
    (known : ∀ k, first ≤ k → k ≤ last → (stage api every seen k).books.find locate ≠ none) :
    locate ∈ reply.locates := by
  rcases about with rfl | rfl
  · rcases answers with ⟨-, k, lower, upper, missing⟩ | ⟨q, v, u, rfl, ⟨k, lower, upper, b, found, shows⟩, -, -⟩
    · exact absurd missing (known k lower upper)
    · exact List.mem_singleton.mpr shows.locate.symm
  · obtain ⟨all, v, u, rfl, ⟨k, lower, upper, rfl⟩, -, -⟩ := answers
    exact (mem_snapshotBookTable (stage_narrow k) locate).mpr (known k lower upper)

/-- A later answer, to a request about anything: its counters are no lower, and a
locate the earlier one gave numbers of is not unknown to it. -/
structure NoOlder (asked : Request) (earlier later : Reply) : Prop where
  counters : ∀ v u v' u', earlier.counters = some (v, u) → later.counters = some (v', u') → v ≤ v' ∧ u ≤ u'
  locates : ∀ locate ∈ earlier.locates, asked = .quote locate ∨ asked = .list → locate ∈ later.locates

theorem answers_noOlder (few : seen.length < 2 ^ 64) {asked asked' : Request} {earlier later : Reply}
    {begin done begin' done' : Nat}
    (answers : AnswersReplay api reads every seen begin done asked earlier)
    (answers' : AnswersReplay api reads every seen begin' done' asked' later)
    (order : done ≤ begin') (within : done' ≤ rounds every seen + 1) : NoOlder asked' earlier later where
  counters v u v' u' counters counters' := by
    obtain ⟨⟨k, -, upper, version⟩, i, -, counted, refs⟩ := answers_counters answers counters
    obtain ⟨⟨l, lower, -, version'⟩, j, after, inside, refs'⟩ := answers_counters answers' counters'
    have grown := stage_grown api few (show i ≤ j by omega) (show j ≤ rounds every seen + 1 by omega)
    refine ⟨UInt64.le_iff_toNat_le.mpr (by omega), ?_⟩
    rw [refs, refs']
    exact grown.unknownRefs
  locates locate member about := by
    obtain ⟨k, -, upper, known⟩ := answers_locates answers member
    refine locates_answers answers' about fun l lower inside => ?_
    exact (stage_grown api few (show k ≤ l by omega) (show l ≤ rounds every seen + 1 by omega)).known locate known

/-- The query server beside a replay, whatever the order of their store calls: the
replay thread has always made a first part of one list of publishes, all of them when
the parse is done; each request is answered with what publishes made while it was
running show of the books; and a request made after another was answered, by any
client, sees no older counters and no fewer locates. -/
theorem queries_follow_replay (api : BookType B) (reads : BookReads B) (every : Nat) (data : List UInt8)
    (size : data.length < 2 ^ 64) :
    (∀ earlier, earlier <+: events data →
      (earlier.foldl (fun h e => PublishingHandler.handler api reads e h) { publishEvery := every }).store =
        published ((publishes api reads every (events data)).take (rounds every earlier))) ∧
    (PublishingHandler.run api reads every data).1.store = published (publishes api reads every (events data)) ∧
    ∀ (lists : ListOrder) (quotes : QuoteOrder) (line : Text) (past gap second third : List Publish),
      past ++ gap ++ second ++ third <+: publishes api reads every (events data) →
      AnswersReplay api reads every (events data) past.length (past ++ gap ++ second ++ third).length (requestOf line)
        ((handleLine lists quotes line).run past [gap, second, third]) ∧
      ∀ (line' : Text) (past' gap' second' third' : List Publish),
        past ++ gap ++ second ++ third <+: past' →
        past' ++ gap' ++ second' ++ third' <+: publishes api reads every (events data) →
        NoOlder (requestOf line') ((handleLine lists quotes line).run past [gap, second, third])
          ((handleLine lists quotes line').run past' [gap', second', third']) := by
  have fewer : (events data).length < 2 ^ 64 - 1 := by
    have frames := Framing.frames_length data
    rw [events, List.length_map]
    omega
  have few : rounds every (events data) + 1 < 2 ^ 64 := by
    have touched : (touching (events data)).length ≤ (events data).length := List.length_filter_le ..
    have quotient := Nat.div_le_self (touching (events data)).length every
    rw [rounds]
    omega
  refine ⟨fun earlier begins => ?_, run_store api reads every data, ?_⟩
  · obtain ⟨more, whole⟩ := begins
    rw [handler_store, ← whole, publishes_append]
  · intro lists quotes line past gap second third within
    have answers := request_answers within lists quotes line few
    refine ⟨answers, ?_⟩
    intro line' past' gap' second' third' order within'
    have answers' := request_answers within' lists quotes line' few
    refine answers_noOlder (by omega) answers answers' order.length_le ?_
    exact publishes_length api reads ▸ within'.length_le

end Replay

-- Four deletes published every second one; the last two publishes come while a quote is answered.
def fourDeletes : List UInt8 :=
  ([68, 68, 83, 68, 68].map fun type => Framing.frame (type :: List.replicate 18 0)).flatten

theorem queries_follow_replay_deletes :
    let history := publishes orderBook orderBookReads 2 (events fourDeletes)
    AnswersReplay orderBook orderBookReads 2 (events fourDeletes) (history.take 1).length
      (history.take 1 ++ history.drop 1 ++ [] ++ []).length (requestOf quoteLine)
      ((handleLine .dataVersionRefs .versionRefs quoteLine).run (history.take 1) [history.drop 1, [], []]) :=
  ((queries_follow_replay orderBook orderBookReads 2 fourDeletes (by simp [fourDeletes, Framing.frame])).2.2
    .dataVersionRefs .versionRefs quoteLine _ _ [] []
    (by simp only [List.append_nil, List.take_append_drop, List.prefix_rfl])).1

end ItchLob.Net
