import ItchLob.Net.QueryServer

set_option autoImplicit false

namespace ItchLob.Net

open Pipeline QueryWire

inductive Request where
  | list
  | quote (locate : UInt16)
  | refused (msg : String)
  deriving DecidableEq, Repr

def requestOf (line : Text) : Request :=
  match extractStringField line (text "cmd") with
  | none => .refused "bad request"
  | some cmd =>
    if cmd = text "list" then .list
    else if cmd = text "quote" then
      match extractUintField line (text "locate") with
      | none => .refused "missing locate"
      | some field => .quote field.toUInt16
    else .refused "unknown command"

/-- The publishes that each of a request's three reads comes after. -/
structure Moments where
  data : List Publish
  version : List Publish
  unknownRefs : List Publish

def listMoments (first second third : List Publish) : ListOrder → Moments
  | .dataVersionRefs => ⟨first, second, third⟩
  | .dataRefsVersion => ⟨first, third, second⟩
  | .versionDataRefs => ⟨second, first, third⟩
  | .versionRefsData => ⟨third, first, second⟩
  | .refsDataVersion => ⟨second, third, first⟩
  | .refsVersionData => ⟨third, second, first⟩

def quoteMoments (first second third : List Publish) : QuoteOrder → Moments
  | .versionRefs => ⟨first, second, third⟩
  | .refsVersion => ⟨first, third, second⟩

/-- What an answer shows is one published snapshot, or the initial empty store
(v = 0): its data as the view has it, its number and its unknown_refs. -/
def FromOne {β : Type} (history : List Publish) (view : SnapshotStore → β) (shown : β)
    (snapshotVersion unknownRefs : UInt64) : Prop :=
  ∃ v ≤ history.length, snapshotVersion = UInt64.ofNat v ∧
    unknownRefs = (published (history.take v)).unknownRefs ∧ shown = view (published (history.take v))

def Untorn (history : List Publish) (asked : Request) : Reply → Prop
  | .list all snapshotVersion unknownRefs =>
    FromOne history SnapshotStore.readAll all snapshotVersion unknownRefs
  | .quote q snapshotVersion unknownRefs =>
    ∃ locate, asked = .quote locate ∧
      FromOne history (fun s => s.find locate) (some q) snapshotVersion unknownRefs
  | .error _ | .errorLocate _ _ => True

/-- Publishes between the reads change nothing the answer shows: the data is the
same when it is read and when the version is, and so is unknown_refs. -/
def Settled {β : Type} (view : SnapshotStore → β) (m : Moments) : Prop :=
  view (published m.data) = view (published m.version) ∧
    (published m.unknownRefs).unknownRefs = (published m.version).unknownRefs

section Answer

variable (lists : ListOrder) (quotes : QuoteOrder) (line : Text) (past first second third : List Publish)

def Undisturbed : Prop :=
  match requestOf line with
  | .list =>
    Settled SnapshotStore.readAll
      (listMoments (past ++ first) (past ++ first ++ second) (past ++ first ++ second ++ third) lists)
  | .quote locate =>
    (published (past ++ first)).find locate = none ∨
      Settled (fun s => s.find locate)
        (quoteMoments (past ++ first) (past ++ first ++ second) (past ++ first ++ second ++ third) quotes)
  | .refused _ => True

theorem handleLine_request :
    handleLine lists quotes line =
      match requestOf line with
      | .list => listReply lists
      | .quote locate =>
        .find locate fun snap =>
          match snap with
          | none => .done (.errorLocate "unknown locate" locate)
          | some q => quoteReply q quotes
      | .refused msg => .done (.error msg) := by
  unfold handleLine requestOf
  cases extractStringField line (text "cmd") with
  | none => rfl
  | some cmd =>
    dsimp only
    split_ifs
    · rfl
    · cases extractUintField line (text "locate") <;> rfl
    · rfl

end Answer

section Moments

variable {β : Type} {history : List Publish} {view : SnapshotStore → β} {m : Moments}

theorem fromOne_of_settled (within : m.version <+: history) (settled : Settled view m) :
    FromOne history view (view (published m.data)) (published m.version).version
      (published m.unknownRefs).unknownRefs := by
  have here : history.take m.version.length = m.version := (List.prefix_iff_eq_take.mp within).symm
  refine ⟨m.version.length, within.length_le, published_version _, ?_, ?_⟩
  · rw [here]
    exact settled.2
  · rw [here]
    exact settled.1

theorem settled_of_fromOne (few : history.length < 2 ^ 64) (within : m.version <+: history)
    (one : FromOne history view (view (published m.data)) (published m.version).version
      (published m.unknownRefs).unknownRefs) : Settled view m := by
  obtain ⟨v, bound, number, refs, data⟩ := one
  have named : v = m.version.length := by
    have short := within.length_le
    have numbers := congrArg UInt64.toNat ((published_version m.version).symm.trans number)
    rw [UInt64.toNat_ofNat_of_lt' (Nat.lt_of_le_of_lt short few),
      UInt64.toNat_ofNat_of_lt' (Nat.lt_of_le_of_lt bound few)] at numbers
    exact numbers.symm
  have here : history.take v = m.version := by
    rw [named]
    exact (List.prefix_iff_eq_take.mp within).symm
  rw [here] at refs data
  exact ⟨data, refs⟩

end Moments

section Runs

variable (past first second third : List Publish)

theorem listReply_run (lists : ListOrder) :
    ∃ m, m = listMoments (past ++ first) (past ++ first ++ second) (past ++ first ++ second ++ third) lists ∧
      m.version <+: past ++ first ++ second ++ third ∧
      (listReply lists).run past [first, second, third] =
        .list (published m.data).readAll (published m.version).version (published m.unknownRefs).unknownRefs := by
  refine ⟨_, rfl, ?_, by cases lists <;> rfl⟩
  cases lists <;> simp [listMoments, List.append_assoc]

theorem quoteReply_run (quotes : QuoteOrder) (q : LocateSnapshot) :
    ∃ m, m = quoteMoments (past ++ first) (past ++ first ++ second) (past ++ first ++ second ++ third) quotes ∧
      m.version <+: past ++ first ++ second ++ third ∧ m.data = past ++ first ∧
      (quoteReply q quotes).run (past ++ first) [second, third] =
        .quote q (published m.version).version (published m.unknownRefs).unknownRefs := by
  refine ⟨_, rfl, ?_, by cases quotes <;> rfl, by cases quotes <;> rfl⟩
  cases quotes <;> simp [quoteMoments, List.append_assoc]

end Runs

/-- An answer is untorn when no publish between its reads changes what it shows,
and only then as long as the publish counter has not wrapped. -/
theorem answer_untorn (lists : ListOrder) (quotes : QuoteOrder) (line : Text)
    (past first second third : List Publish) :
    (Undisturbed lists quotes line past first second third →
      Untorn (past ++ first ++ second ++ third) (requestOf line)
        ((handleLine lists quotes line).run past [first, second, third])) ∧
    ((past ++ first ++ second ++ third).length < 2 ^ 64 →
      Untorn (past ++ first ++ second ++ third) (requestOf line)
        ((handleLine lists quotes line).run past [first, second, third]) →
      Undisturbed lists quotes line past first second third) := by
  rw [handleLine_request]
  unfold Undisturbed
  cases asked : requestOf line with
  | list =>
    obtain ⟨m, here, within, ran⟩ := listReply_run past first second third lists
    simp only [ran, Untorn, ← here]
    exact ⟨fromOne_of_settled within, fun few => settled_of_fromOne few within⟩
  | refused msg => exact ⟨fun _ => trivial, fun _ _ => trivial⟩
  | quote locate =>
    simp only [Reader.run, List.headD_cons, List.tail_cons]
    cases found : (published (past ++ first)).find locate with
    | none => exact ⟨fun _ => trivial, fun _ _ => .inl rfl⟩
    | some q =>
      obtain ⟨m, here, within, data, ran⟩ := quoteReply_run past first second third quotes q
      have shown : (published m.data).find locate = some q := by rw [data, found]
      have one : Untorn (past ++ first ++ second ++ third) (.quote locate)
            ((quoteReply q quotes).run (past ++ first) [second, third]) ↔
          FromOne (past ++ first ++ second ++ third) (fun s => s.find locate) ((published m.data).find locate)
            (published m.version).version (published m.unknownRefs).unknownRefs := by
        rw [ran, shown]
        constructor
        · rintro ⟨l, same, fromOne⟩
          cases same
          exact fromOne
        · exact fun fromOne => ⟨locate, rfl, fromOne⟩
      rw [one, ← here]
      constructor
      · rintro (missing | settled)
        · cases missing
        · exact fromOne_of_settled within settled
      · exact fun few fromOne => .inr (settled_of_fromOne few within fromOne)

theorem undisturbed_of_quiet (lists : ListOrder) (quotes : QuoteOrder) (line : Text) (past first : List Publish) :
    Undisturbed lists quotes line past first [] [] := by
  unfold Undisturbed
  simp only [List.append_nil]
  cases requestOf line with
  | list => cases lists <;> exact ⟨rfl, rfl⟩
  | quote locate => cases quotes <;> exact .inr ⟨rfl, rfl⟩
  | refused msg => trivial

-- The quoted order is gone by the time the version is read.
def firstSnapshot : Publish :=
  { next := [{ locate := 7, hasBid := true, bidPrice := 1500000, bidShares := 100, openOrders := 1, bidLevels := 1 }] }
def secondSnapshot : Publish := { next := [{ locate := 7 }], unknownRefs := 1 }
def quoteLine : Text := text "\x7b\"cmd\":\"quote\",\"locate\":7\x7d"

-- A publish before the first read of three changes nothing that the answer shows.
theorem answer_untorn_quiet :
    Untorn [firstSnapshot, secondSnapshot] (requestOf quoteLine)
      ((handleLine .dataVersionRefs .versionRefs quoteLine).run [firstSnapshot] [[secondSnapshot], [], []]) :=
  (answer_untorn .dataVersionRefs .versionRefs quoteLine [firstSnapshot] [secondSnapshot] [] []).1
    (undisturbed_of_quiet _ _ _ _ _)

theorem quote_torn :
    ¬ Untorn [firstSnapshot, secondSnapshot] (requestOf quoteLine)
      ((handleLine .dataVersionRefs .versionRefs quoteLine).run [firstSnapshot] [[], [secondSnapshot], []]) := by
  have asked : requestOf quoteLine = .quote 7 := by decide
  have answer : (handleLine .dataVersionRefs .versionRefs quoteLine).run [firstSnapshot]
      [[], [secondSnapshot], []] = .quote (firstSnapshot.next.headD {}) 2 1 := by
    rw [handleLine_request, asked]
    rfl
  rw [answer, asked]
  rintro ⟨locate, same, v, bound, number, refs, data⟩
  cases same
  change v ≤ 2 at bound
  interval_cases v
  · exact absurd number (by decide)
  · exact absurd number (by decide)
  · exact absurd data (by decide)

end ItchLob.Net
