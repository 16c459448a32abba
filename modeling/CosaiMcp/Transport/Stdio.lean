import CosaiMcp.Fifo
import CosaiMcp.Py.Json
import Mathlib.Data.List.DropRight

/-!
# The stdio transport

`StdioTransport.send`: a request is written to the process and one line of its output is read. The
process is what it writes in answer to each request (`send` takes the bytes); what
`bytes.decode(errors="replace")` makes of bytes that are not UTF-8 is a parameter.
-/

namespace CosaiMcp.Transport

open Py

variable {φ : Type}

def maxOutputBytes : Nat := 10 * 1024 * 1024

def maxLineBytes : Nat := 64 * 1024

/-- The limit of the stream reader. -/
def streamLimit : Nat := 64 * 1024

/-! ## The text of a line -/

def isKept (c : CodePoint) : Bool := c = 10 || c = 13 || c = 9 || (0x20 ≤ c.val && c.val ≠ 0x7F)

def stripControlChars (text : Str) : Str := text.filter isKept

/-- `b.decode("utf-8", errors="replace")`. -/
def decodeReplace (replace : Bytes → Str) (b : Bytes) : Str := (decodeUtf8 false b).getD (replace b)

/-- `_truncate_line`. A decoded text can be encoded. -/
def truncateLine (replace : Bytes → Str) (line : Str) : Str :=
  match encodeUtf8 line with
  | none => line
  | some encoded =>
    if encoded.length > maxLineBytes then decodeReplace replace (encoded.take maxLineBytes)
    else line

/-- `line.rstrip("\n")`. -/
def stripFeeds (line : Str) : Str := line.rdropWhile (· = 10)

/-! ## Reading -/

structure StdioTransport where
  /-- What the process wrote and nobody read. -/
  unread : Bytes
  totalBytesRead : Nat
  outputTruncated : Bool

/-- A fresh connection. -/
def StdioTransport.connected : StdioTransport := ⟨[], 0, false⟩

/-- The first line, with its line feed, and what follows it. -/
def readline : Bytes → Option (Bytes × Bytes)
  | [] => none
  | b :: bs => if b = 10 then some ([10], bs) else (readline bs).map fun p => (b :: p.1, p.2)

/-- `_read_line_async`; `none` where no line is complete, so that the read times out. -/
def StdioTransport.readLine (replace : Bytes → Str) (t : StdioTransport) :
    Option Str × StdioTransport :=
  match readline t.unread with
  | none => (none, t)
  | some (raw, rest) =>
    -- `readline` raises on a line over the limit, which counts as an empty one
    if raw.length > streamLimit + 1 then (some [], { t with unread := rest })
    else
      let total := t.totalBytesRead + raw.length
      if total > maxOutputBytes then (some [], ⟨rest, total, true⟩)
      else
        let line := truncateLine replace (decodeReplace replace raw)
        (some (stripFeeds (stripControlChars line)), ⟨rest, total, t.outputTruncated⟩)

inductive StdioError where
  | timeout
  | decodeError

section Send

variable [FloatText φ]

/-- What `send` makes of a line. -/
def hearLine (line : Str) : Except StdioError (Json φ) :=
  if line = [] then .ok (.obj [])
  else
    match loads line with
    | none => .error .decodeError
    | some j => .ok j

/-- `send`, where the process answers with the bytes `answer`. -/
def StdioTransport.send (replace : Bytes → Str) (t : StdioTransport) (answer : Bytes) :
    Except StdioError (Json φ) × StdioTransport :=
  let (line, t) := StdioTransport.readLine replace { t with unread := t.unread ++ answer }
  (line.elim (.error .timeout) hearLine, t)

end Send

/-! ## Lines within the caps -/

/-- A line of text, within the cap on lines. -/
structure Line where
  text : Str
  bytes : Bytes
  encoded : encodeUtf8 text = some bytes
  noFeed : 10 ∉ bytes
  short : bytes.length < maxLineBytes

/-- The line on the wire. -/
def Line.raw (l : Line) : Bytes := l.bytes ++ [10]

theorem readline_append {bs : Bytes} (h : 10 ∉ bs) (rest : Bytes) :
    readline (bs ++ 10 :: rest) = some (bs ++ [10], rest) := by
  induction bs with
  | nil => rfl
  | cons b bs ih =>
    have hb : ¬ b = 10 := fun hb => h (hb ▸ List.mem_cons_self)
    rw [List.cons_append, readline, if_neg hb, ih fun hm => h (List.mem_cons_of_mem b hm)]
    rfl

theorem encodeUtf8_append {s t : Str} {b c : Bytes} (hs : encodeUtf8 s = some b)
    (ht : encodeUtf8 t = some c) : encodeUtf8 (s ++ t) = some (b ++ c) := by
  induction s generalizing b with
  | nil => cases hs; exact ht
  | cons x s ih =>
    rw [encodeUtf8] at hs
    obtain ⟨bx, hx, hs⟩ := Option.bind_eq_some_iff.mp hs
    obtain ⟨bs, hbs, hs⟩ := Option.bind_eq_some_iff.mp hs
    cases hs
    rw [List.cons_append, encodeUtf8, hx, ih hbs, List.append_assoc]
    rfl

theorem feed_mem_encodeUtf8 {s : Str} {b : Bytes} (hs : encodeUtf8 s = some b) (h : 10 ∈ s) :
    10 ∈ b := by
  obtain ⟨u, v, rfl⟩ := List.append_of_mem h
  induction u generalizing b with
  | nil =>
    rw [List.nil_append, encodeUtf8] at hs
    obtain ⟨bx, hx, hs⟩ := Option.bind_eq_some_iff.mp hs
    obtain ⟨bs, hbs, hs⟩ := Option.bind_eq_some_iff.mp hs
    cases hs
    cases hx
    exact List.mem_cons_self
  | cons x u ih =>
    rw [List.cons_append, encodeUtf8] at hs
    obtain ⟨bx, hx, hs⟩ := Option.bind_eq_some_iff.mp hs
    obtain ⟨bs, hbs, hs⟩ := Option.bind_eq_some_iff.mp hs
    cases hs
    exact List.mem_append_right bx (ih hbs (List.mem_append_right u List.mem_cons_self))

namespace Line

theorem encoded_raw (l : Line) : encodeUtf8 (l.text ++ [10]) = some l.raw :=
  encodeUtf8_append l.encoded rfl

theorem length_raw (l : Line) : l.raw.length = l.bytes.length + 1 := by
  rw [raw, List.length_append, List.length_singleton]

theorem decodeReplace_raw (replace : Bytes → Str) (l : Line) :
    decodeReplace replace l.raw = l.text ++ [10] := by
  rw [decodeReplace, decodeUtf8_encodeUtf8 false l.encoded_raw]
  rfl

theorem truncateLine_raw (replace : Bytes → Str) (l : Line) :
    truncateLine replace (l.text ++ [10]) = l.text ++ [10] := by
  have hshort : ¬ l.raw.length > maxLineBytes := by
    have := l.short
    rw [l.length_raw]
    omega
  rw [truncateLine, l.encoded_raw]
  exact if_neg hshort

theorem stripFeeds_raw (l : Line) :
    stripFeeds (stripControlChars (l.text ++ [10])) = stripControlChars l.text := by
  have hkept : stripControlChars (l.text ++ [10]) = stripControlChars l.text ++ [10] :=
    List.filter_append l.text [10]
  have hfeed : (10 : CodePoint) ∉ stripControlChars l.text := fun h =>
    l.noFeed (feed_mem_encodeUtf8 l.encoded (List.mem_filter.mp h).1)
  rw [hkept, stripFeeds, List.rdropWhile_concat, if_pos (decide_eq_true rfl),
    List.rdropWhile_eq_self_iff]
  intro hne hlast
  exact hfeed (of_decide_eq_true hlast ▸ List.getLast_mem hne)

end Line

/-! ## The transport is a queue of lines -/

/-- What the process wrote and nobody read are the lines `queue`. -/
structure StdioTransport.Holds (t : StdioTransport) (queue : List Line) : Prop where
  unread : t.unread = queue.flatMap Line.raw

/-- The bytes of some lines. -/
def totalBytes (ls : List Line) : Nat := (ls.flatMap Line.raw).length

section Queue

variable [FloatText φ]

/-- What is heard of a line. -/
def Line.heard (l : Line) : Except StdioError (Json φ) := hearLine (stripControlChars l.text)

/-- The oldest line is read, as long as the cap on the output is not reached. -/
theorem StdioTransport.Holds.send {t : StdioTransport} {queue answer : List Line} {l : Line}
    {ls : List Line} (replace : Bytes → Str) (h : t.Holds queue) (hls : queue ++ answer = l :: ls)
    (hcap : t.totalBytesRead + l.raw.length ≤ maxOutputBytes) :
    (StdioTransport.send (φ := φ) replace t (answer.flatMap Line.raw)).1 = l.heard ∧
    (StdioTransport.send (φ := φ) replace t (answer.flatMap Line.raw)).2 =
      ⟨ls.flatMap Line.raw, t.totalBytesRead + l.raw.length, t.outputTruncated⟩ := by
  have hunread : t.unread ++ answer.flatMap Line.raw = l.bytes ++ 10 :: ls.flatMap Line.raw := by
    rw [h.unread, ← List.flatMap_append, hls, List.flatMap_cons, Line.raw, List.append_assoc]
    rfl
  have hread : StdioTransport.readLine replace
      { t with unread := t.unread ++ answer.flatMap Line.raw } =
        (some (stripControlChars l.text),
          ⟨ls.flatMap Line.raw, t.totalBytesRead + l.raw.length, t.outputTruncated⟩) := by
    have hlimit : ¬ l.raw.length > streamLimit + 1 := by
      have := l.short
      rw [l.length_raw, streamLimit]
      rw [maxLineBytes] at this
      omega
    unfold StdioTransport.readLine
    rw [hunread, readline_append l.noFeed]
    simp only
    rw [← Line.raw, if_neg hlimit, if_neg (Nat.not_lt.mpr hcap), l.decodeReplace_raw,
      l.truncateLine_raw, l.stripFeeds_raw]
  unfold StdioTransport.send
  rw [hread]
  exact ⟨rfl, rfl⟩

end Queue

end CosaiMcp.Transport
