import ItchLob.Itch.FrameWalk

set_option autoImplicit false

namespace ItchLob.Io

open Itch Framing

inductive ZRet where
  | ok
  | streamEnd
  | needDict
  | dataError
  | memError
  | bufError
  | streamError
  deriving DecidableEq, Repr

structure Inflated (ζ : Type) where
  ret : ZRet
  written : List UInt8
  availIn : List UInt8
  zs : ζ

-- `inflate` is given the stream, what is left of the input and avail_out.
structure Zlib (ζ : Type) where
  inflateInit2 : Option ζ
  inflate : ζ → List UInt8 → Nat → Inflated ζ
  msg : ζ → Option String

structure File where
  unread : List UInt8
  error : Bool := false
  deriving DecidableEq, Repr

def fread (size : Nat) (f : File) : List UInt8 × File :=
  (f.unread.take size, { f with unread := f.unread.drop size })

inductive Error where
  | initFailed
  | readFailed
  | inflateFailed (msg : Option String)
  | truncated
  | trailingPartial
  deriving DecidableEq, Repr

def Error.what (path : String) : Error → String
  | .initFailed => "inflateInit2 failed: " ++ path
  | .readFailed => "read failed: " ++ path
  | .inflateFailed msg => "inflate failed: " ++ msg.getD "unknown" ++ " (" ++ path ++ ")"
  | .truncated => "gzip stream truncated before end marker: " ++ path
  | .trailingPartial => "trailing partial ITCH frame after decompression: " ++ path

structure GzipSource where
  path : String
  chunkSize : Nat := 4 * 1024 * 1024
  file : File
  bytes : Nat := 0

def kReadSize : Nat := 64 * 1024

-- `rest` is the buffer from `off` on.
def boundaryLoop : Nat → List UInt8 → Nat → Nat
  | 0, _, off => off
  | fuel + 1, rest, off =>
    if 2 ≤ rest.length then
      let mlen := (be16 rest).toNat
      if mlen = 0 ∨ 2 + mlen > rest.length then off
      else boundaryLoop fuel (rest.drop (2 + mlen)) (off + (2 + mlen))
    else off

def frameBoundary (data : List UInt8) : Nat := boundaryLoop data.length data 0

-- The locals of run that the handler does not see.
structure Feed (ζ : Type) where
  file : File
  zs : ζ
  availIn : List UInt8
  out : List UInt8
  zret : ZRet

-- The locals that a freshly inflated chunk changes, and bytes_.
structure Carry (σ : Type) where
  bytes : Nat
  pending : List UInt8
  frames : Nat
  handler : σ

def consume {σ : Type} (h : Handler σ) (chunk : List UInt8) (c : Carry σ) : Carry σ :=
  let pending := c.pending ++ chunk
  let complete := frameBoundary pending
  let parsed := parseStream h (pending.take complete) c.handler
  { bytes := c.bytes + chunk.length
    pending := pending.drop complete
    frames := c.frames + parsed.2
    handler := parsed.1 }

section Loops

variable {ζ κ : Type} (z : Zlib ζ) (take : List UInt8 → κ → κ)

/-- The inner loop, with what is done with a chunk left open. The out buffer keeps
what inflate did not overwrite, and avail_out is an unsigned int. -/
def inflateLoop : Nat → Feed ζ → κ → Option (Feed ζ × κ × Option Error)
  | 0, _, _ => none
  | fuel + 1, f, k =>
    let room := f.out.length % 2 ^ 32
    let step := z.inflate f.zs f.availIn room
    let out := step.written ++ f.out.drop step.written.length
    let f := { f with zs := step.zs, availIn := step.availIn, out, zret := step.ret }
    if step.ret = .needDict ∨ step.ret = .dataError ∨ step.ret = .memError then
      some (f, k, some (.inflateFailed (z.msg step.zs)))
    else
      let availOut := room - step.written.length
      let produced := out.length - availOut
      let k := if produced > 0 then take (out.take produced) k else k
      if availOut = 0 then inflateLoop fuel f k else some (f, k, none)

def readLoop : Nat → Feed ζ → κ → Option (Feed ζ × κ × Option Error)
  | 0, _, _ => none
  | fuel + 1, f, k =>
    let (block, file) := fread kReadSize f.file
    let f := { f with file, availIn := block }
    if file.error then some (f, k, some .readFailed)
    else if block.length = 0 then some (f, k, none)
    else
      match inflateLoop z take fuel f k with
      | none => none
      | some (f, k, some e) => some (f, k, some e)
      | some (f, k, none) => if f.zret = .streamEnd then some (f, k, none) else readLoop fuel f k

def GzipSource.feed (src : GzipSource) (zs : ζ) : Feed ζ :=
  { file := src.file, zs, availIn := [], out := List.replicate src.chunkSize 0, zret := .ok }

end Loops

structure Outcome (σ : Type) where
  result : Except Error Nat
  handler : σ
  bytesDecompressed : Nat

/-- No outcome when the loops are still running after `fuel` turns. -/
def GzipSource.run {ζ σ : Type} (z : Zlib ζ) (src : GzipSource) (h : Handler σ) (s : σ) (fuel : Nat) :
    Option (Outcome σ) :=
  match z.inflateInit2 with
  | none => some { result := .error .initFailed, handler := s, bytesDecompressed := src.bytes }
  | some zs =>
    let start : Carry σ := { bytes := src.bytes, pending := [], frames := 0, handler := s }
    (readLoop z (consume h) fuel (src.feed zs) start).map fun (f, c, thrown) =>
      { result :=
          match thrown with
          | some e => .error e
          | none =>
            if f.zret ≠ .streamEnd then .error .truncated
            else if c.pending ≠ [] then .error .trailingPartial
            else .ok c.frames
        handler := c.handler
        bytesDecompressed := c.bytes }

theorem boundaryLoop_frames (fuel : Nat) (rest : List UInt8) (off : Nat) :
    boundaryLoop fuel rest off = off + (stream (splitFrames fuel rest)).length := by
  induction fuel generalizing rest off with
  | zero => rfl
  | succ fuel ih =>
    simp only [boundaryLoop, walk_turn, splitFrames]
    split
    next complete =>
      rw [ih, stream_cons, List.length_append, frame_length, payload_length complete, be16_lengthPrefix,
        beyond, Nat.add_assoc]
    next => rfl

theorem frameBoundary_stream (data : List UInt8) : frameBoundary data = (stream (frames data)).length := by
  rw [frameBoundary, boundaryLoop_frames, Nat.zero_add, frames]

theorem take_frameBoundary (data : List UInt8) : data.take (frameBoundary data) = stream (frames data) := by
  rw [frameBoundary_stream]
  nth_rewrite 2 [← stream_residue data]
  exact List.take_left

theorem drop_frameBoundary (data : List UInt8) : data.drop (frameBoundary data) = residue data := by
  rw [frameBoundary_stream, residue]

section Carry

variable {σ : Type} (h : Handler σ) (s : σ)

def carried (content : List UInt8) : Carry σ :=
  { bytes := content.length
    pending := residue content
    frames := (parseStream h content s).2
    handler := (parseStream h content s).1 }

theorem consume_carried (content chunk : List UInt8) :
    consume h chunk (carried h s content) = carried h s (content ++ chunk) := by
  have walked : frames (content ++ chunk) = frames content ++ frames (residue content ++ chunk) :=
    frames_extend content chunk
  have settled : frames (stream (frames (residue content ++ chunk))) = frames (residue content ++ chunk) :=
    frames_stream _ (frames_framable _)
  simp only [consume, carried, take_frameBoundary, drop_frameBoundary, ← residue_extend,
    List.length_append, parseStream_walk, walk_frames, settled, walked, List.foldl_append]

theorem foldl_carried (content : List UInt8) (chunks : List (List UInt8)) :
    chunks.foldl (fun c chunk => consume h chunk c) (carried h s content) =
      carried h s (content ++ chunks.flatten) := by
  induction chunks generalizing content with
  | nil => simp
  | cons chunk rest ih =>
    rw [List.foldl_cons, consume_carried, ih, List.flatten_cons, List.append_assoc]

end Carry

section Handed

variable {ζ κ : Type} (z : Zlib ζ) (take : List UInt8 → κ → κ)

def record (chunk : List UInt8) (chunks : List (List UInt8)) : List (List UInt8) := chunks ++ [chunk]

-- The loops look at a chunk's size only: what is done with the chunks can be
-- done after they are all there.
def replay (k : κ) (stop : Feed ζ × List (List UInt8) × Option Error) : Feed ζ × κ × Option Error :=
  (stop.1, stop.2.1.foldl (fun k chunk => take chunk k) k, stop.2.2)

theorem inflateLoop_replay (fuel : Nat) (f : Feed ζ) (k : κ) (chunks : List (List UInt8)) :
    inflateLoop z take fuel f (chunks.foldl (fun k chunk => take chunk k) k) =
      (inflateLoop z record fuel f chunks).map (replay take k) := by
  induction fuel generalizing f chunks with
  | zero => rfl
  | succ fuel ih =>
    simp only [inflateLoop]
    split
    next => rfl
    next =>
      split
      next =>
        rw [← ih]
        congr 1
        split
        next => simp [record]
        next => rfl
      next =>
        split
        next => simp [record, replay]
        next => rfl

theorem readLoop_replay (fuel : Nat) (f : Feed ζ) (k : κ) (chunks : List (List UInt8)) :
    readLoop z take fuel f (chunks.foldl (fun k chunk => take chunk k) k) =
      (readLoop z record fuel f chunks).map (replay take k) := by
  induction fuel generalizing f chunks with
  | zero => rfl
  | succ fuel ih =>
    simp only [readLoop]
    split
    next => rfl
    next =>
      split
      next => rfl
      next =>
        rw [inflateLoop_replay]
        rcases inflateLoop z record fuel _ chunks with _ | ⟨f', chunks', _ | e⟩
        · rfl
        · simp only [Option.map_some, replay]
          split
          next => rfl
          next => exact ih f' chunks'
        · rfl

end Handed

end ItchLob.Io
