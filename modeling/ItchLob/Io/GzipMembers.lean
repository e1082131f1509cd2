import ItchLob.Io.GzipSource

set_option autoImplicit false

namespace ItchLob.Io

open Itch Framing

/-- One call inside a member, of which these bytes and this content are left. It stops
when the input is used up or the room is, or behind the member's last byte. -/
inductive Inflates {ζ : Type} (live : ζ → List UInt8 → List UInt8 → Prop) (ended : ζ → Prop)
    (bytes content input : List UInt8) (room : Nat) (step : Inflated ζ) : Prop where
  | more (bytes' content' used : List UInt8) (split : bytes = used ++ bytes')
      (consumed : input = used ++ step.availIn) (produced : content = step.written ++ content')
      (left : live step.zs bytes' content') (ret : step.ret = .ok ∨ step.ret = .bufError)
      (stopped : step.availIn = [] ∨ step.written.length = room)
  | finished (consumed : input = bytes ++ step.availIn) (produced : content = step.written)
      (last : ended step.zs) (ret : step.ret = .streamEnd)

/-- A zlib that decompresses these members. Once it has returned Z_STREAM_END it does so
again, without touching the input. -/
structure Inflate {ζ : Type} (z : Zlib ζ) (member : List UInt8 → List UInt8 → Prop) where
  live : ζ → List UInt8 → List UInt8 → Prop
  ended : ζ → Prop
  fits : ∀ zs input room, (z.inflate zs input room).written.length ≤ room
  begins : ∀ zs bytes content, z.inflateInit2 = some zs → member bytes content → live zs bytes content
  unfinished : ∀ zs bytes content, live zs bytes content → bytes ≠ []
  step : ∀ zs bytes content later input room, live zs bytes content → input <+: bytes ++ later → 0 < room →
    Inflates live ended bytes content input room (z.inflate zs input room)
  idle : ∀ zs input room, ended zs → 0 < room →
    (z.inflate zs input room).ret = .streamEnd ∧ (z.inflate zs input room).written = [] ∧
      (z.inflate zs input room).availIn = input

section Turns

variable {ζ κ : Type} (z : Zlib ζ) (take : List UInt8 → κ → κ)

def Feed.room (f : Feed ζ) : Nat := f.out.length % 2 ^ 32

def Feed.step (f : Feed ζ) : Inflated ζ := z.inflate f.zs f.availIn f.room

def Feed.inflated (f : Feed ζ) : Feed ζ :=
  { f with
    zs := (f.step z).zs
    availIn := (f.step z).availIn
    out := (f.step z).written ++ f.out.drop (f.step z).written.length
    zret := (f.step z).ret }

def Feed.availOut (f : Feed ζ) : Nat := f.room - (f.step z).written.length

def Feed.produced (f : Feed ζ) : List UInt8 :=
  (f.inflated z).out.take ((f.inflated z).out.length - f.availOut z)

def Fails (ret : ZRet) : Prop := ret = .needDict ∨ ret = .dataError ∨ ret = .memError

instance (ret : ZRet) : Decidable (Fails ret) := inferInstanceAs (Decidable (_ ∨ _ ∨ _))

def handOver (chunk : List UInt8) (k : κ) : κ := if 0 < chunk.length then take chunk k else k

theorem inflateLoop_turn (fuel : Nat) (f : Feed ζ) (k : κ) :
    inflateLoop z take (fuel + 1) f k =
      if Fails (f.inflated z).zret then
        some (f.inflated z, k, some (.inflateFailed (z.msg (f.inflated z).zs)))
      else if f.availOut z = 0 then inflateLoop z take fuel (f.inflated z) (handOver take (f.produced z) k)
      else some (f.inflated z, handOver take (f.produced z) k, none) := by
  have size : (f.produced z).length = (f.inflated z).out.length - f.availOut z := by
    rw [Feed.produced, List.length_take]
    omega
  rw [handOver, size]
  rfl

def Feed.opened (f : Feed ζ) : Feed ζ :=
  { f with file := (fread kReadSize f.file).2, availIn := (fread kReadSize f.file).1 }

def settle (again : Feed ζ → κ → Option (Feed ζ × κ × Option Error)) :
    Option (Feed ζ × κ × Option Error) → Option (Feed ζ × κ × Option Error)
  | none => none
  | some (f, k, some e) => some (f, k, some e)
  | some (f, k, none) => if f.zret = .streamEnd then some (f, k, none) else again f k

theorem readLoop_turn (fuel : Nat) (f : Feed ζ) (k : κ) :
    readLoop z take (fuel + 1) f k =
      if f.file.error then some (f.opened, k, some .readFailed)
      else if f.opened.availIn.length = 0 then some (f.opened, k, none)
      else settle (readLoop z take fuel) (inflateLoop z take fuel f.opened k) := rfl

theorem readLoop_cases {z : Zlib ζ} {take : List UInt8 → κ → κ} {fuel : Nat} {f : Feed ζ} {k : κ}
    {stop : Feed ζ × κ × Option Error} (returns : readLoop z take (fuel + 1) f k = some stop) :
    (f.file.error = true ∧ stop = (f.opened, k, some .readFailed)) ∨
      (f.file.error = false ∧ f.opened.availIn = [] ∧ stop = (f.opened, k, none)) ∨
      (f.file.error = false ∧ f.opened.availIn ≠ [] ∧
        ∃ g k', inflateLoop z take fuel f.opened k = some (g, k', none) ∧
          (g.zret = .streamEnd ∧ stop = (g, k', none) ∨
            g.zret ≠ .streamEnd ∧ readLoop z take fuel g k' = some stop)) ∨
      (f.file.error = false ∧ f.opened.availIn ≠ [] ∧
        ∃ g k' e, inflateLoop z take fuel f.opened k = some (g, k', some e) ∧ stop = (g, k', some e)) := by
  rw [readLoop_turn] at returns
  split at returns
  next failed => exact .inl ⟨failed, (Option.some.inj returns).symm⟩
  next sound =>
    have sound := Bool.eq_false_iff.mpr sound
    split at returns
    next exhausted => exact .inr (.inl ⟨sound, List.length_eq_zero_iff.mp exhausted, (Option.some.inj returns).symm⟩)
    next block =>
      have block := mt List.length_eq_zero_iff.mpr block
      refine .inr (.inr ?_)
      cases inner : inflateLoop z take fuel f.opened k with
      | none =>
        rw [inner] at returns
        cases returns
      | some found =>
        rw [inner] at returns
        obtain ⟨g, k', _ | e⟩ := found
        · refine .inl ⟨sound, block, g, k', rfl, ?_⟩
          simp only [settle] at returns
          split at returns
          next ended => exact .inl ⟨ended, (Option.some.inj returns).symm⟩
          next more => exact .inr ⟨more, returns⟩
        · exact .inr ⟨sound, block, g, k', e, rfl, (Option.some.inj returns).symm⟩

end Turns

section Logged

variable {ζ κ : Type}

-- The same zlib, with a log of what its calls have consumed.
def logged (z : Zlib ζ) : Zlib (ζ × List UInt8) where
  inflateInit2 := z.inflateInit2.map fun zs => (zs, [])
  inflate s input room :=
    let step := z.inflate s.1 input room
    { ret := step.ret
      written := step.written
      availIn := step.availIn
      zs := (step.zs, s.2 ++ input.take (input.length - step.availIn.length)) }
  msg s := z.msg s.1

def Feed.plain (f : Feed (ζ × List UInt8)) : Feed ζ :=
  { file := f.file, zs := f.zs.1, availIn := f.availIn, out := f.out, zret := f.zret }

def plainStop (stop : Feed (ζ × List UInt8) × κ × Option Error) : Feed ζ × κ × Option Error :=
  (stop.1.plain, stop.2)

theorem inflateLoop_logged (z : Zlib ζ) (take : List UInt8 → κ → κ) (fuel : Nat) (f : Feed (ζ × List UInt8)) (k : κ) :
    inflateLoop z take fuel f.plain k = (inflateLoop (logged z) take fuel f k).map plainStop := by
  induction fuel generalizing f k with
  | zero => rfl
  | succ fuel ih =>
    have inflated : f.plain.inflated z = (f.inflated (logged z)).plain := rfl
    have left : f.plain.availOut z = f.availOut (logged z) := rfl
    have chunk : f.plain.produced z = f.produced (logged z) := rfl
    rw [inflateLoop_turn, inflateLoop_turn, inflated, left, chunk, ih, apply_ite (Option.map plainStop),
      apply_ite (Option.map plainStop)]
    rfl

theorem readLoop_logged (z : Zlib ζ) (take : List UInt8 → κ → κ) (fuel : Nat) (f : Feed (ζ × List UInt8)) (k : κ) :
    readLoop z take fuel f.plain k = (readLoop (logged z) take fuel f k).map plainStop := by
  induction fuel generalizing f k with
  | zero => rfl
  | succ fuel ih =>
    have opened : f.plain.opened = f.opened.plain := rfl
    have settled (stop : Option (Feed (ζ × List UInt8) × κ × Option Error)) :
        settle (readLoop z take fuel) (stop.map plainStop) =
          (settle (readLoop (logged z) take fuel) stop).map plainStop := by
      rcases stop with _ | ⟨g, k, _ | e⟩
      · rfl
      · change (if g.zret = .streamEnd then _ else _) = Option.map _ (if g.zret = .streamEnd then _ else _)
        rw [apply_ite (Option.map plainStop), ← ih]
        rfl
      · rfl
    rw [readLoop_turn, readLoop_turn, opened, inflateLoop_logged, settled, apply_ite (Option.map plainStop),
      apply_ite (Option.map plainStop)]
    rfl

def handedLoop (path : String) (chunkSize : Nat) (file : File) (z : Zlib ζ) (zs : ζ) (fuel : Nat) :
    Option (Feed (ζ × List UInt8) × List (List UInt8) × Option Error) :=
  readLoop (logged z) record fuel (GzipSource.feed { path, chunkSize, file } (zs, [])) []

end Logged

section Fuel

variable {ζ κ : Type} {z : Zlib ζ} {take : List UInt8 → κ → κ} {stop : Feed ζ × κ × Option Error}

theorem inflateLoop_more {fuel : Nat} {f : Feed ζ} {k : κ} (returns : inflateLoop z take fuel f k = some stop)
    (extra : Nat) : inflateLoop z take (fuel + extra) f k = some stop := by
  induction fuel generalizing f k with
  | zero => cases returns
  | succ fuel ih =>
    rw [Nat.add_right_comm, inflateLoop_turn]
    rw [inflateLoop_turn] at returns
    split
    next failed => rwa [if_pos failed] at returns
    next fine =>
      rw [if_neg fine] at returns
      split
      next full =>
        rw [if_pos full] at returns
        exact ih returns
      next room => rwa [if_neg room] at returns

theorem readLoop_more {fuel : Nat} {f : Feed ζ} {k : κ} (returns : readLoop z take fuel f k = some stop)
    (extra : Nat) : readLoop z take (fuel + extra) f k = some stop := by
  induction fuel generalizing f k with
  | zero => cases returns
  | succ fuel ih =>
    rw [Nat.add_right_comm, readLoop_turn]
    obtain ⟨failed, stops⟩ | ⟨sound, exhausted, stops⟩ | ⟨sound, block, g, k', inner, onward⟩ |
      ⟨sound, block, g, k', e, inner, stops⟩ := readLoop_cases returns
    · rw [if_pos failed, stops]
    · rw [sound, if_neg Bool.false_ne_true, if_pos (List.length_eq_zero_iff.mpr exhausted), stops]
    · rw [sound, if_neg Bool.false_ne_true, if_neg (mt List.length_eq_zero_iff.mp block), inflateLoop_more inner,
        settle]
      obtain ⟨ended, stops⟩ | ⟨unfinished, again⟩ := onward
      · rw [if_pos ended, stops]
      · rw [if_neg unfinished]
        exact ih again
    · rw [sound, if_neg Bool.false_ne_true, if_neg (mt List.length_eq_zero_iff.mp block), inflateLoop_more inner,
        settle, stops]

theorem readLoop_unique {fuel fuel' : Nat} {f : Feed ζ} {k : κ} {stop' : Feed ζ × κ × Option Error}
    (returns : readLoop z take fuel f k = some stop) (returns' : readLoop z take fuel' f k = some stop') :
    stop' = stop := by
  have longer := readLoop_more returns fuel'
  rw [Nat.add_comm, readLoop_more returns' fuel] at longer
  exact Option.some.inj longer

end Fuel

section Member

variable {ζ : Type} {z : Zlib ζ} {member : List UInt8 → List UInt8 → Prop} (inflate : Inflate z member)
  {chunkSize : Nat}

theorem Inflate.buffer (inflate : Inflate z member) {f : Feed (ζ × List UInt8)} (size : f.out.length = chunkSize)
    (word : chunkSize < 2 ^ 32) :
    (f.inflated (logged z)).out.length = chunkSize ∧ f.produced (logged z) = (f.step (logged z)).written ∧
      f.room = chunkSize ∧ (f.availOut (logged z) = 0 ↔ (f.step (logged z)).written.length = chunkSize) := by
  have room : f.room = chunkSize := by rw [Feed.room, size, Nat.mod_eq_of_lt word]
  have fits : (f.step (logged z)).written.length ≤ f.room := inflate.fits f.zs.1 f.availIn f.room
  rw [room] at fits
  have width : (f.inflated (logged z)).out.length = chunkSize := by
    rw [Feed.inflated, List.length_append, List.length_drop, size]
    omega
  refine ⟨width, ?_, room, ?_⟩
  · rw [Feed.produced, width, Feed.availOut, room, Nat.sub_sub_self fits]
    exact List.take_left
  · rw [Feed.availOut, room]
    omega

theorem flatten_handOver (chunks : List (List UInt8)) (chunk : List UInt8) :
    (handOver record chunk chunks).flatten = chunks.flatten ++ chunk := by
  unfold handOver
  split
  next => simp [record]
  next empty => rw [List.length_eq_zero_iff.mp (by omega : chunk.length = 0), List.append_nil]

theorem Feed.inflated_log (f : Feed (ζ × List UInt8)) {used : List UInt8}
    (consumed : f.availIn = used ++ (f.step (logged z)).availIn) :
    (f.inflated (logged z)).zs.2 = f.zs.2 ++ used := by
  have log : (f.inflated (logged z)).zs.2 =
      f.zs.2 ++ f.availIn.take (f.availIn.length - (f.step (logged z)).availIn.length) := rfl
  rw [log, consumed, List.length_append, Nat.add_sub_cancel, List.take_left]

theorem inflateLoop_idle {f : Feed (ζ × List UInt8)} (ended : inflate.ended f.zs.1) (size : f.out.length = chunkSize)
    (positive : 0 < chunkSize) (word : chunkSize < 2 ^ 32) (fuel : Nat) (chunks : List (List UInt8)) :
    ∃ g, inflateLoop (logged z) record (fuel + 1) f chunks = some (g, chunks, none) ∧ g.zret = .streamEnd ∧
      g.zs.2 = f.zs.2 ∧ g.out.length = chunkSize ∧ g.file = f.file := by
  obtain ⟨width, produced, room, full⟩ := inflate.buffer size word
  obtain ⟨ret, written, availIn⟩ := inflate.idle f.zs.1 f.availIn f.room ended (room ▸ positive)
  have nothing : (f.step (logged z)).written = [] := written
  have fine : ¬Fails (f.inflated (logged z)).zret := by
    rw [show (f.inflated (logged z)).zret = .streamEnd from ret]
    decide
  have more : ¬f.availOut (logged z) = 0 := by
    rw [full, nothing]
    exact Nat.ne_of_lt positive
  refine ⟨f.inflated (logged z), ?_, ret, ?_, width, rfl⟩
  · rw [inflateLoop_turn, if_neg fine, if_neg more, produced, nothing]
    rfl
  · have same : f.availIn = [] ++ (f.step (logged z)).availIn := availIn.symm
    rw [f.inflated_log same, List.append_nil]

/-- Where the inner loop leaves a member of which these bytes and this content were left:
behind its end marker, or with the whole block consumed. -/
inductive Leaves (bytes content : List UInt8) (f g : Feed (ζ × List UInt8)) (chunks chunks' : List (List UInt8)) :
    Prop where
  | ended (ret : g.zret = .streamEnd) (whole : chunks'.flatten = chunks.flatten ++ content)
      (log : g.zs.2 = f.zs.2 ++ bytes)
  | onward (bytes' content' : List UInt8) (ret : g.zret ≠ .streamEnd) (split : bytes = f.availIn ++ bytes')
      (whole : chunks'.flatten ++ content' = chunks.flatten ++ content) (left : inflate.live g.zs.1 bytes' content')
      (shorter : content'.length ≤ content.length) (log : g.zs.2 = f.zs.2 ++ f.availIn)

theorem Leaves.resume {bytes bytes' content content' used : List UInt8} {f f' g : Feed (ζ × List UInt8)}
    {chunks between chunks' : List (List UInt8)} (split : bytes = used ++ bytes')
    (consumed : f.availIn = used ++ f'.availIn) (log : f'.zs.2 = f.zs.2 ++ used)
    (whole : between.flatten ++ content' = chunks.flatten ++ content) (shorter : content'.length ≤ content.length)
    (leaves : Leaves inflate bytes' content' f' g between chunks') :
    Leaves inflate bytes content f g chunks chunks' := by
  cases leaves with
  | ended ret whole' log' =>
    refine .ended ret (whole'.trans whole) ?_
    rw [log', log, split, List.append_assoc]
  | onward bytes'' content'' ret split' whole' left shorter' log' =>
    refine .onward bytes'' content'' ret ?_ (whole'.trans whole) left (shorter'.trans shorter) ?_
    · rw [split, split', consumed, List.append_assoc]
    · rw [log', log, consumed, List.append_assoc]

theorem inflateLoop_member (fuel : Nat) {f : Feed (ζ × List UInt8)} (chunks : List (List UInt8))
    {bytes content later : List UInt8} (live : inflate.live f.zs.1 bytes content)
    (input : f.availIn <+: bytes ++ later) (size : f.out.length = chunkSize) (positive : 0 < chunkSize)
    (word : chunkSize < 2 ^ 32) (enough : content.length + 2 ≤ fuel) :
    ∃ g chunks', inflateLoop (logged z) record fuel f chunks = some (g, chunks', none) ∧
      g.out.length = chunkSize ∧ g.file = f.file ∧ Leaves inflate bytes content f g chunks chunks' := by
  induction fuel generalizing f chunks bytes content with
  | zero => omega
  | succ fuel ih =>
    obtain ⟨width, chunk, room, full⟩ := inflate.buffer size word
    have handed := flatten_handOver chunks (f.produced (logged z))
    rw [chunk] at handed
    rw [inflateLoop_turn, chunk]
    cases inflate.step f.zs.1 bytes content later f.availIn f.room live input (room ▸ positive) with
    | finished consumed produced last ret =>
      have fine : ¬Fails (f.inflated (logged z)).zret := by
        rw [show (f.inflated (logged z)).zret = .streamEnd from ret]
        decide
      have whole : (handOver record (f.step (logged z)).written chunks).flatten = chunks.flatten ++ content := by
        rw [handed, produced]
        rfl
      have log := f.inflated_log consumed
      rw [if_neg fine]
      split
      next =>
        -- The buffer is full, so zlib is asked once more.
        obtain ⟨fuel, rfl⟩ : ∃ n, fuel = n + 1 := ⟨fuel - 1, by omega⟩
        obtain ⟨g, returns, retAgain, logAgain, widthAgain, file⟩ :=
          inflateLoop_idle inflate (f := f.inflated (logged z)) last width positive word fuel
            (handOver record (f.step (logged z)).written chunks)
        exact ⟨g, _, returns, widthAgain, file, .ended retAgain whole (logAgain.trans log)⟩
      next => exact ⟨f.inflated (logged z), _, rfl, width, rfl, .ended ret whole log⟩
    | more bytes' content' used split consumed produced left ret stopped =>
      have fine : ¬Fails (f.inflated (logged z)).zret := by
        rcases ret with ret | ret <;> rw [show (f.inflated (logged z)).zret = _ from ret] <;> decide
      have whole : (handOver record (f.step (logged z)).written chunks).flatten ++ content' =
          chunks.flatten ++ content := by
        rw [handed, produced, List.append_assoc]
        rfl
      have log := f.inflated_log consumed
      have sizes : content.length = (f.step (logged z)).written.length + content'.length :=
        (congrArg List.length produced).trans List.length_append
      rw [if_neg fine]
      split
      next empty =>
        have written := full.mp empty
        have next : (f.inflated (logged z)).availIn <+: bytes' ++ later := by
          rw [split, consumed, List.append_assoc] at input
          exact (List.prefix_append_right_inj used).mp input
        obtain ⟨g, chunks', returns, widthAgain, file, leaves⟩ :=
          ih (handOver record (f.step (logged z)).written chunks) left next width (by omega)
        exact ⟨g, chunks', returns, widthAgain, file, leaves.resume inflate split consumed log whole (by omega)⟩
      next room' =>
        have exhausted : (f.step (logged z)).availIn = [] :=
          stopped.resolve_right fun filled => room' (full.mpr (filled.trans room))
        have same : used = f.availIn := by
          rw [consumed]
          exact (List.append_nil used).symm.trans (congrArg (used ++ ·) exhausted.symm)
        refine ⟨f.inflated (logged z), _, rfl, width, rfl, .onward bytes' content' ?_ ?_ whole left (by omega) ?_⟩
        · rcases ret with ret | ret <;> rw [show (f.inflated (logged z)).zret = _ from ret] <;> decide
        · rw [split, same]
        · rw [log, same]

theorem readLoop_member (fuel : Nat) {f : Feed (ζ × List UInt8)} (chunks : List (List UInt8))
    {bytes content later : List UInt8} (live : inflate.live f.zs.1 bytes content)
    (unread : f.file.unread = bytes ++ later) (sound : f.file.error = false) (size : f.out.length = chunkSize)
    (positive : 0 < chunkSize) (word : chunkSize < 2 ^ 32) (enough : content.length + bytes.length + 3 ≤ fuel) :
    ∃ g chunks', readLoop (logged z) record fuel f chunks = some (g, chunks', none) ∧ g.zret = .streamEnd ∧
      chunks'.flatten = chunks.flatten ++ content ∧ g.zs.2 = f.zs.2 ++ bytes := by
  induction fuel generalizing f chunks bytes content with
  | zero => omega
  | succ fuel ih =>
    have filled : 0 < bytes.length := List.length_pos_of_ne_nil (inflate.unfinished _ _ _ live)
    have whole : f.opened.availIn ++ f.opened.file.unread = bytes ++ later :=
      (List.take_append_drop kReadSize f.file.unread).trans unread
    have block : 0 < f.opened.availIn.length := by
      change 0 < (f.file.unread.take kReadSize).length
      rw [List.length_take, unread, List.length_append, kReadSize]
      omega
    obtain ⟨g, chunks', inner, width, file, leaves⟩ := inflateLoop_member inflate fuel (f := f.opened) chunks live
      ⟨_, whole⟩ size positive word (by omega)
    rw [readLoop_turn, sound, if_neg Bool.false_ne_true, if_neg (Nat.ne_of_gt block), inner, settle]
    cases leaves with
    | ended ret handed log =>
      rw [if_pos ret]
      exact ⟨g, chunks', rfl, ret, handed, log⟩
    | onward bytes' content' ret split handed left shorter log =>
      have onward : g.file.unread = bytes' ++ later := by
        rw [split, List.append_assoc] at whole
        rw [file]
        exact List.append_cancel_left whole
      have fewer : bytes.length = f.opened.availIn.length + bytes'.length :=
        (congrArg List.length split).trans List.length_append
      obtain ⟨g', chunks'', returns, ret', handed', log'⟩ := ih (f := g) chunks' left onward
        ((congrArg File.error file).trans sound) width (by omega)
      rw [if_neg ret]
      refine ⟨g', chunks'', returns, ret', handed'.trans handed, ?_⟩
      rw [log', log, split, List.append_assoc]
      rfl

include inflate in
theorem handedLoop_member (path : String) (file : File) {zs : ζ} {bytes content later : List UInt8}
    (init : z.inflateInit2 = some zs) (whole : member bytes content) (unread : file.unread = bytes ++ later)
    (sound : file.error = false) (positive : 0 < chunkSize) (word : chunkSize < 2 ^ 32) :
    ∃ fuel g chunks, handedLoop path chunkSize file z zs fuel = some (g, chunks, none) ∧
      g.zret = .streamEnd ∧ chunks.flatten = content ∧ g.zs.2 = bytes := by
  let f := GzipSource.feed { path, chunkSize, file } (zs, ([] : List UInt8))
  have live := inflate.begins zs bytes content init whole
  obtain ⟨g, chunks, loops, ended, handed, log⟩ := readLoop_member inflate (content.length + bytes.length + 3)
    (f := f) [] live unread sound List.length_replicate positive word (Nat.le_refl _)
  exact ⟨_, g, chunks, loops, ended, handed, log⟩

end Member

def GzipSource.consumed {ζ σ : Type} (z : Zlib ζ) (src : GzipSource) (h : Handler σ) (s : σ) (fuel : Nat) :
    Option (List UInt8) :=
  (logged z).inflateInit2.bind fun zs =>
    (readLoop (logged z) (consume h) fuel (src.feed zs)
      { bytes := src.bytes, pending := [], frames := 0, handler := s }).map fun stop => stop.1.zs.2

section Run

variable {ζ σ : Type} {z : Zlib ζ} (path : String) (chunkSize : Nat) (file : File) (h : Handler σ) (s : σ)

def conclude (stop : Feed (ζ × List UInt8) × List (List UInt8) × Option Error) : Outcome σ :=
  let content := stop.2.1.flatten
  { result :=
      match stop.2.2 with
      | some e => .error e
      | none =>
        if stop.1.zret ≠ .streamEnd then .error .truncated
        else if residue content ≠ [] then .error .trailingPartial
        else .ok (parseStream h content s).2
    handler := (parseStream h content s).1
    bytesDecompressed := content.length }

theorem handedLoop_replayed (zs : ζ) (fuel : Nat) :
    readLoop (logged z) (consume h) fuel (GzipSource.feed { path, chunkSize, file } (zs, [])) (carried h s []) =
      (handedLoop path chunkSize file z zs fuel).map fun stop =>
        (stop.1, carried h s stop.2.1.flatten, stop.2.2) := by
  have later := readLoop_replay (logged z) (consume h) fuel (GzipSource.feed { path, chunkSize, file } (zs, []))
    (carried h s []) []
  refine later.trans ?_
  rw [handedLoop]
  congr 1
  funext stop
  rw [replay, foldl_carried, List.nil_append]

theorem run_conclude {zs : ζ} (init : z.inflateInit2 = some zs) (fuel : Nat) :
    GzipSource.run z { path, chunkSize, file } h s fuel =
        (handedLoop path chunkSize file z zs fuel).map (conclude h s) ∧
      GzipSource.consumed z { path, chunkSize, file } h s fuel =
        (handedLoop path chunkSize file z zs fuel).map fun stop => stop.1.zs.2 := by
  have replayed := handedLoop_replayed (z := z) path chunkSize file h s zs fuel
  constructor
  · have plain := readLoop_logged z (consume h) fuel (GzipSource.feed { path, chunkSize, file } (zs, []))
      (carried h s [])
    rw [replayed, Option.map_map] at plain
    rw [GzipSource.run, init]
    change Option.map _ (readLoop z (consume h) fuel (GzipSource.feed { path, chunkSize, file } (zs, [])).plain
      (carried h s [])) = _
    rw [plain, Option.map_map]
    rfl
  · have begun : (logged z).inflateInit2 = some (zs, []) := congrArg (Option.map fun zs => (zs, [])) init
    rw [GzipSource.consumed, begun]
    change Option.map _ (readLoop (logged z) (consume h) fuel _ (carried h s [])) = _
    rw [replayed, Option.map_map]
    rfl

end Run

section Chunks

variable {ζ : Type} {z : Zlib ζ}

-- With no room to write to, avail_out is 0 after every call and the inner loop does not end.
theorem inflateLoop_stuck (fits : ∀ zs input room, (z.inflate zs input room).written.length ≤ room) (fuel : Nat)
    (f : Feed ζ) (k : List (List UInt8)) (empty : f.out = []) :
    inflateLoop z record fuel f k = none ∨ ∃ g k' e, inflateLoop z record fuel f k = some (g, k', some e) := by
  induction fuel generalizing f k with
  | zero => exact .inl rfl
  | succ fuel ih =>
    have room : f.room = 0 := by rw [Feed.room, empty]; rfl
    have written : (f.step z).written = [] :=
      List.length_eq_zero_iff.mp (Nat.le_zero.mp (room ▸ fits f.zs f.availIn f.room))
    have full : f.availOut z = 0 := by rw [Feed.availOut, room, Nat.zero_sub]
    have still : (f.inflated z).out = [] := by
      rw [Feed.inflated, written, empty]
      rfl
    rw [inflateLoop_turn, if_pos full]
    split
    next => exact .inr ⟨_, _, _, rfl⟩
    next => exact ih _ _ still

theorem inflateLoop_grows {fuel : Nat} {f g : Feed ζ} {chunks chunks' : List (List UInt8)} {thrown : Option Error}
    (returns : inflateLoop z record fuel f chunks = some (g, chunks', thrown)) :
    chunks.flatten <+: chunks'.flatten := by
  induction fuel generalizing f chunks with
  | zero => cases returns
  | succ fuel ih =>
    have more : chunks.flatten <+: (handOver record (f.produced z) chunks).flatten := by
      rw [flatten_handOver]
      exact List.prefix_append _ _
    rw [inflateLoop_turn] at returns
    split at returns
    next =>
      cases returns
      exact List.prefix_rfl
    next =>
      split at returns
      next => exact more.trans (ih returns)
      next =>
        cases returns
        exact more

theorem readLoop_grows {fuel : Nat} {f g : Feed ζ} {chunks chunks' : List (List UInt8)} {thrown : Option Error}
    (returns : readLoop z record fuel f chunks = some (g, chunks', thrown)) :
    chunks.flatten <+: chunks'.flatten := by
  induction fuel generalizing f chunks with
  | zero => cases returns
  | succ fuel ih =>
    obtain ⟨-, stop⟩ | ⟨-, -, stop⟩ | ⟨-, -, g', chunks'', inner, onward⟩ | ⟨-, -, g', chunks'', e, inner, stop⟩ :=
      readLoop_cases returns
    · cases stop
      exact List.prefix_rfl
    · cases stop
      exact List.prefix_rfl
    · obtain ⟨-, stop⟩ | ⟨-, again⟩ := onward
      · cases stop
        exact inflateLoop_grows inner
      · exact (inflateLoop_grows inner).trans (ih again)
    · cases stop
      exact inflateLoop_grows inner

-- From 2^32 on, avail_out is too small for the buffer: the first call's chunk has the buffer's own
-- zeros behind what inflate wrote.
theorem inflateLoop_garbled {fuel : Nat} {f g : Feed ζ} {chunkSize : Nat} {chunks' : List (List UInt8)}
    (fits : ∀ zs input room, (z.inflate zs input room).written.length ≤ room)
    (fresh : f.out = List.replicate chunkSize 0) (beyond : 2 ^ 32 ≤ chunkSize)
    (returns : inflateLoop z record fuel f [] = some (g, chunks', none)) :
    ∃ written, written ++ List.replicate (chunkSize - chunkSize % 2 ^ 32) 0 <+: chunks'.flatten := by
  obtain _ | fuel := fuel
  · cases returns
  · have room : f.room = chunkSize % 2 ^ 32 := by rw [Feed.room, fresh, List.length_replicate]
    have bound : (f.step z).written.length ≤ chunkSize % 2 ^ 32 := room ▸ fits f.zs f.availIn f.room
    have produced : f.produced z = (f.step z).written ++ List.replicate (chunkSize - chunkSize % 2 ^ 32) 0 := by
      have out : (f.inflated z).out =
          (f.step z).written ++ List.replicate (chunkSize - (f.step z).written.length) 0 := by
        rw [Feed.inflated, fresh, List.drop_replicate]
      rw [Feed.produced, Feed.availOut, room, out, List.length_append, List.length_replicate,
        List.take_append, List.take_of_length_le (by omega), List.take_replicate]
      congr 2
      omega
    have handed := flatten_handOver [] (f.produced z)
    rw [List.flatten_nil, List.nil_append, produced] at handed
    rw [inflateLoop_turn] at returns
    split at returns
    next => cases returns
    next =>
      refine ⟨(f.step z).written, ?_⟩
      rw [← handed, ← produced]
      split at returns
      next => exact inflateLoop_grows returns
      next =>
        cases returns
        exact List.prefix_rfl

end Chunks

def WholeFrames (content : List UInt8) : Prop :=
  ∃ payloads, (∀ p ∈ payloads, Framable p) ∧ content = Encode.stream payloads

theorem residue_wholeFrames (content : List UInt8) : residue content = [] ↔ WholeFrames content := by
  simp only [WholeFrames, Encode.stream_eq]
  exact residue_eq_nil_iff content

theorem handedLoop_sane {ζ : Type} {z : Zlib ζ}
    (fits : ∀ zs input room, (z.inflate zs input room).written.length ≤ room)
    {path : String} {chunkSize : Nat} {file : File} {zs : ζ} {fuel : Nat} {g : Feed (ζ × List UInt8)}
    {chunks : List (List UInt8)} (loops : handedLoop path chunkSize file z zs fuel = some (g, chunks, none))
    (ended : g.zret = .streamEnd) (whole : WholeFrames chunks.flatten) :
    file.error = false ∧ 0 < chunkSize ∧ chunkSize < 2 ^ 32 := by
  have fits : ∀ s input room, ((logged z).inflate s input room).written.length ≤ room :=
    fun s input room => fits s.1 input room
  obtain _ | fuel := fuel
  · cases loops
  · obtain ⟨-, stop⟩ | ⟨-, -, stop⟩ | ⟨sound, -, g', chunks', inner, onward⟩ | ⟨-, -, g', chunks', e, inner, stop⟩ :=
      readLoop_cases loops
    · cases stop
    · cases stop
      cases ended
    · refine ⟨sound, Nat.pos_of_ne_zero fun zero => ?_, Nat.lt_of_not_le fun beyond => ?_⟩
      · have empty : List.replicate chunkSize (0 : UInt8) = [] := by rw [zero, List.replicate_zero]
        have stuck := inflateLoop_stuck fits fuel (GzipSource.feed { path, chunkSize, file } (zs, [])).opened [] empty
        rw [inner] at stuck
        simp at stuck
      · have grows : chunks'.flatten <+: chunks.flatten := by
          obtain ⟨-, stop⟩ | ⟨-, again⟩ := onward
          · cases stop
            exact List.prefix_rfl
          · exact readLoop_grows again
        obtain ⟨written, more, garbled⟩ := inflateLoop_garbled fits rfl beyond inner
        obtain ⟨payloads, framable, framed⟩ := whole
        obtain ⟨rest, split⟩ := grows
        rw [Encode.stream_eq, ← split, ← garbled, List.append_assoc, List.append_assoc] at framed
        exact stream_zeros payloads framable (by omega) _ _ framed.symm
    · cases stop

-- Byte for byte: a header or trailer byte writes nothing, a stored byte writes itself.
abbrev Cells := List (UInt8 × Option UInt8)

def Cells.bytes (cells : Cells) : List UInt8 := cells.map Prod.fst

def Cells.content (cells : Cells) : List UInt8 := cells.filterMap Prod.snd

def inflateCells : Cells → List UInt8 → Nat → Inflated Cells
  | [], input, _ => { ret := .streamEnd, written := [], availIn := input, zs := [] }
  | cell :: cells, [], _ => { ret := .ok, written := [], availIn := [], zs := cell :: cells }
  | (byte, none) :: cells, b :: input, room =>
    if b = byte then inflateCells cells input room
    else { ret := .dataError, written := [], availIn := input, zs := (byte, none) :: cells }
  | (byte, some out) :: cells, b :: input, 0 =>
    { ret := .ok, written := [], availIn := b :: input, zs := (byte, some out) :: cells }
  | (byte, some out) :: cells, b :: input, room + 1 =>
    if b = byte then
      let step := inflateCells cells input room
      { step with written := out :: step.written }
    else { ret := .dataError, written := [], availIn := input, zs := (byte, some out) :: cells }

def inflating (cells : Cells) : Zlib Cells where
  inflateInit2 := some cells
  inflate := inflateCells
  msg _ := none

theorem inflateCells_fits (cells : Cells) (input : List UInt8) (room : Nat) :
    (inflateCells cells input room).written.length ≤ room := by
  fun_induction inflateCells with
  | case6 out cells byte input room step ih => exact Nat.succ_le_succ ih
  | _ => simp_all

def LiveCells (cells : Cells) (bytes content : List UInt8) : Prop :=
  cells ≠ [] ∧ bytes = cells.bytes ∧ content = cells.content

theorem inflateCells_step (cells : Cells) (later input : List UInt8) (room : Nat)
    (before : input <+: cells.bytes ++ later) :
    Inflates LiveCells (· = []) cells.bytes cells.content input room (inflateCells cells input room) := by
  fun_induction inflateCells with
  | case1 input room => exact .finished rfl rfl rfl rfl
  | case2 cell cells room => exact .more _ _ [] rfl rfl rfl ⟨nofun, rfl, rfl⟩ (.inl rfl) (.inl rfl)
  | case3 cells byte input room ih =>
    have onward : input <+: Cells.bytes cells ++ later := (List.cons_prefix_cons.mp before).2
    cases ih onward with
    | more bytes' content' used split consumed produced left ret stopped =>
      exact .more bytes' content' (byte :: used) (congrArg (byte :: ·) split) (congrArg (byte :: ·) consumed) produced
        left ret stopped
    | finished consumed produced last ret => exact .finished (congrArg (byte :: ·) consumed) produced last ret
  | case4 byte cells b input room other => exact absurd (List.cons_prefix_cons.mp before).1 other
  | case5 byte out cells b input => exact .more _ _ [] rfl rfl rfl ⟨nofun, rfl, rfl⟩ (.inl rfl) (.inr rfl)
  | case6 out cells byte input room step ih =>
    have onward : input <+: Cells.bytes cells ++ later := (List.cons_prefix_cons.mp before).2
    cases ih onward with
    | more bytes' content' used split consumed produced left ret stopped =>
      exact .more bytes' content' (byte :: used) (congrArg (byte :: ·) split) (congrArg (byte :: ·) consumed)
        (congrArg (out :: ·) produced) left ret (stopped.imp_right (congrArg Nat.succ))
    | finished consumed produced last ret =>
      exact .finished (congrArg (byte :: ·) consumed) (congrArg (out :: ·) produced) last ret
  | case7 byte out cells b input room other => exact absurd (List.cons_prefix_cons.mp before).1 other

def inflatingInflate (cells : Cells) (nonempty : cells ≠ []) :
    Inflate (inflating cells) fun bytes content => bytes = cells.bytes ∧ content = cells.content where
  live := LiveCells
  ended := (· = [])
  fits := inflateCells_fits
  begins zs bytes content init member := by
    cases init
    exact ⟨nonempty, member⟩
  unfinished zs bytes content live := by
    rw [live.2.1, Cells.bytes]
    exact mt List.map_eq_nil_iff.mp live.1
  step zs bytes content later input room live before positive := by
    obtain ⟨-, rfl, rfl⟩ := live
    exact inflateCells_step zs later input room before
  idle zs input room ended positive := by
    rw [ended]
    exact ⟨rfl, rfl, rfl⟩

/-- Streaming is whole-buffer parsing: however inflate cuts the content, the handler sees what
parse_stream over the whole content shows it, and the run succeeds exactly when the content is
nothing but complete frames. -/
theorem run_parseStream {ζ σ : Type} (z : Zlib ζ) (member : List UInt8 → List UInt8 → Prop)
    (inflate : Inflate z member) (zs : ζ) (started : z.inflateInit2 = some zs) (path : String) (chunkSize : Nat)
    (positive : 0 < chunkSize) (word : chunkSize < 2 ^ 32) (bytes content later : List UInt8)
    (whole : member bytes content) (h : Handler σ) (s : σ) :
    let src : GzipSource := { path, chunkSize, file := { unread := bytes ++ later } }
    ∃ result,
      let outcome : Outcome σ :=
        { result, handler := (parseStream h content s).1, bytesDecompressed := content.length }
      (∃ fuel, src.run z h s fuel = some outcome) ∧
        (∀ fuel returned, src.run z h s fuel = some returned → returned = outcome) ∧
        (result = .ok (parseStream h content s).2 ↔
          ∃ payloads, (∀ p ∈ payloads, Framable p) ∧ content = Encode.stream payloads) ∧
        ((¬ ∃ payloads, (∀ p ∈ payloads, Framable p) ∧ content = Encode.stream payloads) →
          result = .error .trailingPartial) := by
  intro src
  let file : File := { unread := bytes ++ later }
  have ran (fuel : Nat) : src.run z h s fuel = (handedLoop path chunkSize file z zs fuel).map (conclude h s) :=
    (run_conclude path chunkSize file h s started fuel).1
  obtain ⟨fuel, g, chunks, loops, ended, handed, -⟩ :=
    handedLoop_member inflate path file started whole rfl rfl positive word
  have concluded : conclude h s (g, chunks, none) =
      { result := if residue content ≠ [] then .error .trailingPartial else .ok (parseStream h content s).2
        handler := (parseStream h content s).1
        bytesDecompressed := content.length } := by
    simp only [conclude, handed, ended, ne_eq, not_true, if_false]
  refine ⟨_, ⟨fuel, by rw [ran, loops, Option.map_some, concluded]⟩, fun fuel' returned again => ?_, ?_⟩
  · rw [ran] at again
    obtain ⟨stop, loops', rfl⟩ := Option.map_eq_some_iff.mp again
    rw [readLoop_unique loops loops', concluded]
  · change (_ ↔ WholeFrames content) ∧ (¬WholeFrames content → _)
    rw [← residue_wholeFrames]
    by_cases empty : residue content = [] <;> simp [empty]

-- gzip of two messages, uncompressed.
def pairCells : Cells :=
  [31, 139, 8, 0, 0, 0, 0, 0, 4, 3, 1, 7, 0, 248, 255].map (fun byte => (byte, none)) ++
    [0, 1, 83, 0, 2, 84, 85].map (fun byte => (byte, some byte)) ++
    [133, 80, 209, 239, 7, 0, 0, 0].map (fun byte => (byte, none))

def pairSource (chunkSize : Nat) : GzipSource :=
  { path := "day.gz", chunkSize, file := { unread := pairCells.bytes ++ [] } }

-- Through a buffer of two bytes both prefixes and both payloads are cut.
theorem run_parseStream_pair :
    (handedLoop "day.gz" 2 (pairSource 2).file (inflating pairCells) pairCells 6).map (fun stop => stop.2.1) =
        some [[0, 1], [83, 0], [2, 84], [85]] ∧
      ∃ fuel, (pairSource 2).run (inflating pairCells) (fun e calls => calls ++ [e]) [] fuel =
        some { result := .ok 2, handler := [.other 83 1, .other 84 2], bytesDecompressed := 7 } := by
  obtain ⟨result, ⟨fuel, ran⟩, -, succeeds, -⟩ :=
    run_parseStream (inflating pairCells) _ (inflatingInflate pairCells (by decide)) pairCells rfl "day.gz" 2
      (by decide) (by decide) pairCells.bytes pairCells.content [] ⟨rfl, rfl⟩ (fun e calls => calls ++ [e]) []
  have ok : result = .ok 2 := succeeds.mpr ⟨[[83], [84, 85]], by simp [Framable], rfl⟩
  exact ⟨rfl, fuel, ok ▸ ran⟩

def ReadsWhole {ζ σ : Type} (z : Zlib ζ) (src : GzipSource) (h : Handler σ) (s : σ) (content : List UInt8) : Prop :=
  ∀ fuel outcome frames, src.run z h s fuel = some outcome → outcome.result = .ok frames →
    src.consumed z h s fuel = some src.file.unread ∧ outcome.handler = (parseStream h content s).1

section Whole

variable {ζ σ : Type} {z : Zlib ζ} {path : String} {chunkSize : Nat} {file : File} {h : Handler σ} {s : σ} {zs : ζ}

theorem conclude_ok {stop : Feed (ζ × List UInt8) × List (List UInt8) × Option Error} {frames : Nat}
    (success : (conclude h s stop).result = .ok frames) :
    stop.2.2 = none ∧ stop.1.zret = .streamEnd ∧ WholeFrames stop.2.1.flatten := by
  obtain ⟨g, chunks, _ | e⟩ := stop
  · simp only [conclude] at success
    split at success
    next => cases success
    next ended =>
      split at success
      next => cases success
      next whole => exact ⟨rfl, not_not.mp ended, (residue_wholeFrames _).mp (not_not.mp whole)⟩
  · cases success

theorem run_ok {fuel : Nat} {outcome : Outcome σ} {frames : Nat}
    (ran : GzipSource.run z { path, chunkSize, file } h s fuel = some outcome)
    (success : outcome.result = .ok frames) :
    ∃ zs g chunks, z.inflateInit2 = some zs ∧ handedLoop path chunkSize file z zs fuel = some (g, chunks, none) ∧
      g.zret = .streamEnd ∧ WholeFrames chunks.flatten ∧ outcome.handler = (parseStream h chunks.flatten s).1 ∧
      GzipSource.consumed z { path, chunkSize, file } h s fuel = some g.zs.2 := by
  cases init : z.inflateInit2 with
  | none =>
    rw [GzipSource.run, init] at ran
    cases ran
    cases success
  | some zs =>
    obtain ⟨concluded, consumed⟩ := run_conclude path chunkSize file h s init fuel
    rw [concluded] at ran
    obtain ⟨⟨g, chunks, thrown⟩, loops, rfl⟩ := Option.map_eq_some_iff.mp ran
    obtain ⟨rfl, ended, whole⟩ := conclude_ok success
    exact ⟨zs, g, chunks, rfl, loops, ended, whole, rfl, by rw [consumed, loops]; rfl⟩

theorem ok_run (init : z.inflateInit2 = some zs) {fuel : Nat} {g : Feed (ζ × List UInt8)} {chunks : List (List UInt8)}
    (loops : handedLoop path chunkSize file z zs fuel = some (g, chunks, none)) (ended : g.zret = .streamEnd)
    (whole : WholeFrames chunks.flatten) :
    ∃ outcome frames, GzipSource.run z { path, chunkSize, file } h s fuel = some outcome ∧
      outcome.result = .ok frames ∧ GzipSource.consumed z { path, chunkSize, file } h s fuel = some g.zs.2 := by
  obtain ⟨concluded, consumed⟩ := run_conclude path chunkSize file h s init fuel
  rw [loops] at concluded consumed
  refine ⟨_, (parseStream h chunks.flatten s).2, concluded, ?_, consumed⟩
  simp [conclude, ended, (residue_wholeFrames _).mpr whole]

end Whole

/-- run stops at the first Z_STREAM_END, so of a file of members it reads the first: a success
has read the whole file exactly when there is no second member or when no run succeeds. -/
theorem run_reads_whole_iff {ζ σ : Type} (z : Zlib ζ) (member : List UInt8 → List UInt8 → Prop)
    (inflate : Inflate z member) (path : String) (chunkSize : Nat) (error : Bool) (first : List UInt8 × List UInt8)
    (rest : List (List UInt8 × List UInt8)) (members : ∀ m ∈ first :: rest, member m.1 m.2) (h : Handler σ) (s : σ) :
    ReadsWhole z { path, chunkSize, file := { unread := (first :: rest).flatMap Prod.fst, error } } h s
        ((first :: rest).flatMap Prod.snd) ↔
      rest = [] ∨ ¬WholeFrames first.2 ∨ chunkSize = 0 ∨ 2 ^ 32 ≤ chunkSize ∨ error = true ∨
        z.inflateInit2 = none := by
  let file : File := { unread := (first :: rest).flatMap Prod.fst, error }
  have whole : member first.1 first.2 := members first List.mem_cons_self
  have split : file.unread = first.1 ++ rest.flatMap Prod.fst := List.flatMap_cons
  constructor
  · intro reads
    by_contra other
    push Not at other
    obtain ⟨later, framed, positive, word, sound, started⟩ := other
    obtain ⟨zs, init⟩ := Option.ne_none_iff_exists'.mp started
    obtain ⟨fuel, g, chunks, loops, ended, handed, log⟩ := handedLoop_member inflate path file init whole
      split (Bool.eq_false_iff.mpr sound) (Nat.pos_of_ne_zero positive) word
    obtain ⟨outcome, frames, ran, success, consumed⟩ := ok_run (h := h) (s := s) init loops ended (handed ▸ framed)
    have everything := (reads fuel outcome frames ran success).1
    rw [consumed, log] at everything
    have skipped : rest.flatMap Prod.fst = [] :=
      List.self_eq_append_right.mp ((Option.some.inj everything).trans split)
    obtain ⟨second, others, rfl⟩ := List.exists_cons_of_ne_nil later
    have second_live := inflate.begins zs second.1 second.2 init (members second (by simp))
    exact inflate.unfinished zs second.1 second.2 second_live (List.append_eq_nil_iff.mp skipped).1
  · intro condition fuel outcome frames ran success
    obtain ⟨zs, g, chunks, init, loops, ended, framed, handler, consumed⟩ := run_ok ran success
    obtain ⟨sound, positive, word⟩ := handedLoop_sane inflate.fits loops ended framed
    obtain ⟨fuel', g', chunks', loops', -, handed, log⟩ := handedLoop_member inflate path file init whole
      split sound positive word
    obtain ⟨rfl, rfl⟩ : g = g' ∧ chunks = chunks' := by
      have same := readLoop_unique loops' loops
      exact ⟨congrArg Prod.fst same, congrArg (fun stop => stop.2.1) same⟩
    obtain rfl : rest = [] := by
      rcases condition with only | broken | zero | beyond | failed | unstarted
      · exact only
      · exact absurd (handed ▸ framed) broken
      · omega
      · omega
      · cases sound.symm.trans failed
      · cases init.symm.trans unstarted
    rw [consumed, log, handler, handed]
    simp

-- gzip of one 'S' message, uncompressed.
def letterCells : Cells :=
  [31, 139, 8, 0, 0, 0, 0, 0, 4, 3, 1, 3, 0, 252, 255].map (fun byte => (byte, none)) ++
    [0, 1, 83].map (fun byte => (byte, some byte)) ++ [29, 232, 56, 20, 3, 0, 0, 0].map (fun byte => (byte, none))

def letters (count : Nat) : GzipSource :=
  { path := "day.gz", chunkSize := 16, file := { unread := (List.replicate count letterCells.bytes).flatten } }

def recordEvents : Handler (List Event) := fun e calls => calls ++ [e]

theorem run_reads_whole_iff_letters :
    ReadsWhole (inflating letterCells) (letters 1) recordEvents [] [0, 1, 83] ∧
      ¬ReadsWhole (inflating letterCells) (letters 2) recordEvents [] [0, 1, 83, 0, 1, 83] := by
  have whole : WholeFrames [0, 1, 83] := ⟨[[83]], by simp [Framable], rfl⟩
  have reads (rest : List (List UInt8 × List UInt8))
      (same : ∀ m ∈ rest, m = (letterCells.bytes, letterCells.content)) :=
    run_reads_whole_iff (inflating letterCells) _ (inflatingInflate letterCells (by decide)) "day.gz" 16 false
      (letterCells.bytes, letterCells.content) rest (by simpa using same) recordEvents []
  refine ⟨(reads [] (by simp)).mpr (.inl rfl), fun both => ?_⟩
  rcases (reads [(letterCells.bytes, letterCells.content)] (by simp)).mp both with
    only | broken | zero | beyond | failed | unstarted
  · cases only
  · exact broken whole
  · cases zero
  · exact absurd beyond (by decide)
  · cases failed
  · cases unstarted

theorem second_member_skipped :
    GzipSource.run (inflating letterCells) (letters 2) recordEvents [] 2 =
        some { result := .ok 1, handler := [.other 83 1], bytesDecompressed := 3 } ∧
      GzipSource.consumed (inflating letterCells) (letters 2) recordEvents [] 2 = some letterCells.bytes ∧
      ¬ReadsWhole (inflating letterCells) (letters 2) recordEvents [] [0, 1, 83, 0, 1, 83] := by
  have ran : GzipSource.run (inflating letterCells) (letters 2) recordEvents [] 2 =
      some { result := .ok 1, handler := [.other 83 1], bytesDecompressed := 3 } := rfl
  have consumed : GzipSource.consumed (inflating letterCells) (letters 2) recordEvents [] 2 =
      some letterCells.bytes := by
    decide +kernel
  refine ⟨ran, consumed, fun reads => ?_⟩
  have everything := (reads 2 _ 1 ran rfl).1
  rw [consumed] at everything
  revert everything
  decide +kernel

end ItchLob.Io
