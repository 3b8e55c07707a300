import Metralectl.Core.Text
import Metralectl.Library.Json
import Metralectl.Library.Lossy

/-!
Fetching the metrics of a model that serves on this machine: one request, and what
arrives of its response until the connection closes. The bytes are made a text before
the lengths of a chunked body are applied to it.
-/
namespace Metralectl
namespace HttpScrape
open Utf8

/-- Largest response accepted, in bytes. -/
def maxBody : Nat := 2 ^ 20

def crlf : Text := ['\r', '\n']

/-- What stands before and after the first place where `sep` does. -/
def splitOnce (sep : Text) : Text → Option (Text × Text)
  | [] => if sep = [] then some ([], []) else none
  | c :: text =>
      if sep <+: c :: text then some ([], (c :: text).drop sep.length)
      else (splitOnce sep text).map fun (front, rest) => (c :: front, rest)

/-- A text up to the byte and from the byte, if a character ends there. -/
def splitBytes : Nat → Text → Option (Text × Text)
  | 0, text => some ([], text)
  | _ + 1, [] => none
  | n + 1, c :: text =>
      if c.utf8Size ≤ n + 1 then
        (splitBytes (n + 1 - c.utf8Size) text).map fun (front, rest) => (c :: front, rest)
      else none

def hexNumber (digits : Text) : Nat :=
  digits.foldl (fun n c => 16 * n + (JsonText.hexValue c).getD 0) 0

/-- A number in base 16 that fits the machine's word; a plus may stand before it. -/
def fromStrRadix (hex : Text) : Option Nat :=
  let digits := if hex.head? = some '+' then hex.tail else hex
  if digits ≠ [] ∧ digits.all (fun c => (JsonText.hexValue c).isSome) ∧
      hexNumber digits < 2 ^ 64 then
    some (hexNumber digits)
  else none

/-- The length a chunk's first line says; an extension after `;` is legal and ignored. -/
def hexOf (line : Text) : Text := trimChars (line.takeWhile (· ≠ ';'))

def chunkLength (line : Text) : Option Nat := fromStrRadix (hexOf line)

/-- A line's end, if one stands there. -/
def afterBreak (text : Text) : Text := if crlf <+: text then text.drop 2 else text

/-- One turn over a chunked body: the next chunk and what is left, or none at its end. -/
def readChunk (rest : Text) : Except String (Option (Text × Text)) :=
  match splitOnce crlf rest with
  | none => .error "a chunked body ended mid-header"
  | some (line, tail) =>
      match chunkLength line with
      | none => .error s!"`{String.ofList (hexOf line)}` is not a chunk length"
      | some 0 => .ok none
      | some len =>
          match splitBytes len tail with
          | none =>
              .error (s!"a chunked body claimed {len} bytes and sent {(encode tail).length} " ++
                "that do not divide there")
          | some (chunk, after) => .ok (some (chunk, afterBreak after))

/-- The turns, no more of them than characters. -/
def dechunkFrom : Nat → Text → Text → Except String Text
  | 0, _, _ => .error ""
  | fuel + 1, rest, out =>
      match readChunk rest with
      | .error e => .error e
      | .ok none => .ok out
      | .ok (some (chunk, rest)) => dechunkFrom fuel rest (out ++ chunk)

/-- Reassemble a chunked body. -/
def dechunk (body : Text) : Except String Text := dechunkFrom (body.length + 1) body []

/-- What arrives of a response, and the error that ends it, if it is not closed. -/
structure Arrived where
  bytes : Bytes
  ended : Option String

/-- Reading stops at the limit without asking for more. -/
def readToEnd (arrived : Arrived) : Except String Bytes :=
  if maxBody ≤ arrived.bytes.length then .ok (arrived.bytes.take maxBody)
  else
    match arrived.ended with
    | none => .ok arrived.bytes
    | some _ => .error "reading the exposition"

def request (port : Nat) : String :=
  s!"GET /metrics HTTP/1.1\r\nHost: 127.0.0.1:{port}\r\n" ++
    "Accept: text/plain\r\nConnection: close\r\n\r\n"

def splitHead (text : Text) : Option (Text × Text) :=
  (splitOnce (crlf ++ crlf) text).or (splitOnce ['\n', '\n'] text)

def statusLine (head : Text) : Text := (lines (String.ofList head)).headD []

/-- Whether a head says that the body is chunked, as the scraper reads it. -/
def declaresChunked (head : Text) : Bool :=
  occursIn "transfer-encoding: chunked" (head.map Char.toLower)

/-- Connecting or sending may fail, or something arrives. -/
def scrape (server : Nat → String → Except String Arrived) (port : Nat) : Except String Text := do
  let arrived ← server port (request port)
  let raw ← readToEnd arrived
  match splitHead (lossy raw) with
  | none => .error "the endpoint did not send a complete HTTP response"
  | some (head, body) =>
      if !occursIn " 200" (statusLine head) then
        .error s!"the metrics endpoint answered `{String.ofList (trimChars (statusLine head))}`"
      else if declaresChunked head then dechunk body
      else .ok body

example : dechunk "5\r\nhello\r\n6\r\n world\r\n0\r\n\r\n".toList = .ok "hello world".toList := by
  decide +kernel

section Splitting
variable {sep a b text : Text} {c : Char} {n : Nat}

/-- The first place is the one before which there is no other. -/
theorem splitOnce_first (some_ : sep ≠ []) (first : ¬ sep <:+: a ++ sep.dropLast) :
    splitOnce sep (a ++ (sep ++ b)) = some (a, b) := by
  induction a with
  | nil =>
      obtain ⟨x, more, rfl⟩ := List.exists_cons_of_ne_nil some_
      have here : x :: more <+: x :: (more ++ b) := List.prefix_append (x :: more) b
      rw [List.nil_append, List.cons_append, splitOnce, if_pos here, ← List.cons_append,
        List.drop_left]
  | cons c a ih =>
      have later : ¬ sep <:+: a ++ sep.dropLast := fun h =>
        first (h.trans (List.infix_cons (List.infix_refl _)))
      have not_here : ¬ sep <+: c :: (a ++ (sep ++ b)) := by
        intro here
        have inside : c :: (a ++ sep.dropLast) <+: c :: (a ++ (sep ++ b)) := by
          refine List.cons_prefix_cons.mpr ⟨rfl, ?_⟩
          rw [List.prefix_append_right_inj]
          exact (List.dropLast_prefix sep).trans (List.prefix_append sep b)
        have short : sep.length ≤ (c :: (a ++ sep.dropLast)).length := by
          rw [List.length_cons, List.length_append, List.length_dropLast]
          omega
        exact first (List.prefix_of_prefix_length_le here inside short).isInfix
      rw [List.cons_append, splitOnce, if_neg not_here, ih later]
      rfl

theorem splitOnce_none (some_ : sep ≠ []) : splitOnce sep text = none ↔ ¬ sep <:+: text := by
  induction text with
  | nil => simp [splitOnce, some_, List.infix_nil]
  | cons c text ih =>
      rw [splitOnce, List.infix_cons_iff, not_or, ← ih]
      by_cases here : sep <+: c :: text
      · simp [here]
      · simp [here]

theorem splitOnce_some (h : splitOnce sep text = some (a, b)) : text = a ++ (sep ++ b) := by
  induction text generalizing a with
  | nil =>
      rw [splitOnce] at h
      split at h
      · next empty =>
          cases h
          rw [empty]
          rfl
      · cases h
  | cons c text ih =>
      rw [splitOnce] at h
      split at h
      · next here =>
          cases h
          obtain ⟨rest, whole⟩ := here
          rw [← whole, List.drop_left]
          rfl
      · cases later : splitOnce sep text with
        | none =>
            rw [later] at h
            cases h
        | some both =>
            rw [later] at h
            cases h
            rw [ih later]
            rfl

theorem splitOnce_earliest (some_ : sep ≠ []) (h : splitOnce sep text = some (a, b)) :
    ¬ sep <:+: a ++ sep.dropLast := by
  induction text generalizing a with
  | nil =>
      rw [splitOnce, if_neg some_] at h
      cases h
  | cons c text ih =>
      rw [splitOnce] at h
      split at h
      · cases h
        intro within
        have short := within.length_le
        have positive := List.length_pos_iff.mpr some_
        rw [List.nil_append, List.length_dropLast] at short
        omega
      · next not_here =>
          cases later : splitOnce sep text with
          | none =>
              rw [later] at h
              cases h
          | some both =>
              rw [later] at h
              cases h
              have whole := splitOnce_some later
              intro within
              rw [List.cons_append, List.infix_cons_iff] at within
              cases within with
              | inl here =>
                  have inside : c :: (both.1 ++ sep.dropLast) <+: c :: text := by
                    rw [whole, List.cons_prefix_cons, List.prefix_append_right_inj]
                    exact ⟨rfl, (List.dropLast_prefix sep).trans (List.prefix_append sep _)⟩
                  exact not_here (here.trans inside)
              | inr deeper => exact ih later deeper

theorem splitBytes_append (a text : Text) (n : Nat) :
    splitBytes ((encode a).length + n) (a ++ text) =
      (splitBytes n text).map fun (front, rest) => (a ++ front, rest) := by
  induction a with
  | nil =>
      rw [encode, List.flatMap_nil, List.length_nil, Nat.zero_add, List.nil_append]
      cases splitBytes n text <;> rfl
  | cons c a ih =>
      have size : (encode (c :: a)).length = c.utf8Size + (encode a).length := by
        simp [encode]
      obtain ⟨k, positive⟩ : ∃ k, c.utf8Size = k + 1 :=
        ⟨c.utf8Size - 1, (Nat.sub_add_cancel c.utf8Size_pos).symm⟩
      have here : c.utf8Size + (encode a).length + n = k + (encode a).length + n + 1 := by omega
      have rest : k + (encode a).length + n + 1 - c.utf8Size = (encode a).length + n := by omega
      rw [size, here, List.cons_append, splitBytes, if_pos (by omega), rest, ih]
      cases splitBytes n text <;> rfl

theorem splitBytes_encode (a text : Text) :
    splitBytes (encode a).length (a ++ text) = some (a, text) := by
  have split := splitBytes_append a text 0
  simp only [Nat.add_zero, splitBytes, Option.map_some, List.append_nil] at split
  exact split

theorem splitBytes_some (h : splitBytes n text = some (a, b)) :
    text = a ++ b ∧ (encode a).length = n := by
  induction text generalizing n a with
  | nil =>
      cases n with
      | zero =>
          cases h
          exact ⟨rfl, rfl⟩
      | succ n => cases h
  | cons c text ih =>
      cases n with
      | zero =>
          cases h
          exact ⟨rfl, rfl⟩
      | succ n =>
          rw [splitBytes] at h
          split at h
          · next fits =>
              cases later : splitBytes (n + 1 - c.utf8Size) text with
              | none =>
                  rw [later] at h
                  cases h
              | some both =>
                  rw [later] at h
                  cases h
                  obtain ⟨rfl, size⟩ := ih later
                  refine ⟨rfl, ?_⟩
                  have one : (encode (c :: both.1)).length = c.utf8Size + (encode both.1).length := by
                    simp [encode]
                  omega
          · cases h

end Splitting

section Dechunking
variable {rest chunk after out o : Text} {fuel : Nat}

/-- A line that has no end in it. -/
def Line (line : Text) : Prop := ¬ crlf <:+: line ++ ['\r']

/-- The texts that are chunks up to one of length zero, whatever follows it. -/
inductive Spelled : Text → Prop
  | last {line tail : Text} : Line line → chunkLength line = some 0 →
      Spelled (line ++ (crlf ++ tail))
  | chunk {line data after : Text} {len : Nat} : Line line → chunkLength line = some (len + 1) →
      (encode data).length = len + 1 → Spelled (afterBreak after) →
      Spelled (line ++ (crlf ++ (data ++ after)))

theorem crlf_ne_nil : crlf ≠ [] := List.cons_ne_nil _ _

theorem splitOnce_line {line : Text} (whole : Line line) (tail : Text) :
    splitOnce crlf (line ++ (crlf ++ tail)) = some (line, tail) :=
  splitOnce_first crlf_ne_nil whole

theorem readChunk_last {line : Text} (whole : Line line) (zero : chunkLength line = some 0)
    (tail : Text) : readChunk (line ++ (crlf ++ tail)) = .ok none := by
  simp only [readChunk, splitOnce_line whole, zero]

theorem readChunk_chunk {line data : Text} {len : Nat} (whole : Line line)
    (length : chunkLength line = some (len + 1)) (size : (encode data).length = len + 1)
    (after : Text) :
    readChunk (line ++ (crlf ++ (data ++ after))) = .ok (some (data, afterBreak after)) := by
  have split := splitBytes_encode data after
  rw [size] at split
  simp only [readChunk, splitOnce_line whole, length, split]

theorem readChunk_short {line tail : Text} {len : Nat} (whole : Line line)
    (length : chunkLength line = some (len + 1)) (few : splitBytes (len + 1) tail = none) :
    ∃ e, readChunk (line ++ (crlf ++ tail)) = .error e := by
  simp only [readChunk, splitOnce_line whole, length, few]
  exact ⟨_, rfl⟩

theorem readChunk_unread {line tail : Text} (whole : Line line) (none : chunkLength line = none) :
    ∃ e, readChunk (line ++ (crlf ++ tail)) = .error e := by
  simp only [readChunk, splitOnce_line whole, none]
  exact ⟨_, rfl⟩

/-- What a turn that succeeds has read. -/
theorem readChunk_ok {r : Option (Text × Text)} (h : readChunk rest = .ok r) :
    (∃ line tail, rest = line ++ (crlf ++ tail) ∧ Line line ∧ chunkLength line = some 0 ∧
        r = none) ∨
      ∃ line data after len, rest = line ++ (crlf ++ (data ++ after)) ∧ Line line ∧
        chunkLength line = some (len + 1) ∧ (encode data).length = len + 1 ∧
        r = some (data, afterBreak after) := by
  unfold readChunk at h
  cases first : splitOnce crlf rest with
  | none =>
      rw [first] at h
      cases h
  | some both =>
      obtain ⟨line, tail⟩ := both
      rw [first] at h
      have whole := splitOnce_some first
      have earliest : Line line := splitOnce_earliest crlf_ne_nil first
      cases length : chunkLength line with
      | none =>
          simp only [length] at h
          cases h
      | some len =>
          cases len with
          | zero =>
              simp only [length] at h
              cases h
              exact .inl ⟨line, tail, whole, earliest, length, rfl⟩
          | succ len =>
              simp only [length] at h
              cases split : splitBytes (len + 1) tail with
              | none =>
                  rw [split] at h
                  cases h
              | some parts =>
                  obtain ⟨data, after⟩ := parts
                  rw [split] at h
                  cases h
                  obtain ⟨rfl, size⟩ := splitBytes_some split
                  exact .inr ⟨line, data, after, len, whole, earliest, length, size, rfl⟩

theorem length_afterBreak (text : Text) : (afterBreak text).length ≤ text.length := by
  unfold afterBreak
  split
  · rw [List.length_drop]
    exact Nat.sub_le _ _
  · exact Nat.le_refl _

/-- A turn takes the chunk and a line's end at the least. -/
theorem readChunk_shorter (h : readChunk rest = .ok (some (chunk, after))) :
    chunk.length + after.length < rest.length := by
  cases readChunk_ok h with
  | inl ended =>
      obtain ⟨_, _, _, _, _, none⟩ := ended
      cases none
  | inr more =>
      obtain ⟨line, data, behind, len, rfl, _, _, _, same⟩ := more
      cases same
      have := length_afterBreak behind
      simp only [List.length_append, crlf, List.length_cons, List.length_nil]
      omega

/-- More turns than characters make no difference. -/
theorem dechunkFrom_enough {more : Nat} (h : rest.length < fuel) (h' : rest.length < more) :
    dechunkFrom fuel rest out = dechunkFrom more rest out := by
  induction fuel generalizing rest out more with
  | zero => exact absurd h (Nat.not_lt_zero _)
  | succ fuel ih =>
      obtain ⟨more, rfl⟩ : ∃ m, more = m + 1 := ⟨more - 1, by omega⟩
      unfold dechunkFrom
      cases turn : readChunk rest with
      | error e => rfl
      | ok r =>
          cases r with
          | none => rfl
          | some both =>
              have shorter := readChunk_shorter turn
              exact ih (by omega) (by omega)

theorem dechunkFrom_ok (h : dechunkFrom fuel rest out = .ok o) :
    Spelled rest ∧ out <+: o ∧ o.length < out.length + rest.length := by
  induction fuel generalizing rest out with
  | zero => cases h
  | succ fuel ih =>
      unfold dechunkFrom at h
      cases turn : readChunk rest with
      | error e =>
          rw [turn] at h
          cases h
      | ok r =>
          rw [turn] at h
          cases readChunk_ok turn with
          | inl ended =>
              obtain ⟨line, tail, rfl, whole, zero, rfl⟩ := ended
              cases h
              refine ⟨.last whole zero, List.prefix_refl _, ?_⟩
              simp [crlf]
          | inr goes =>
              obtain ⟨line, data, after, len, rfl, whole, length, size, rfl⟩ := goes
              obtain ⟨spelled, front, short⟩ := ih h
              refine ⟨.chunk whole length size spelled, (List.prefix_append _ _).trans front, ?_⟩
              have := readChunk_shorter turn
              rw [List.length_append] at short
              omega

theorem Spelled.dechunks (spelled : Spelled rest) (enough : rest.length < fuel) :
    ∃ o, dechunkFrom fuel rest out = .ok o := by
  induction spelled generalizing fuel out with
  | last whole zero =>
      obtain ⟨fuel, rfl⟩ : ∃ n, fuel = n + 1 := ⟨fuel - 1, by omega⟩
      exact ⟨out, by rw [dechunkFrom, readChunk_last whole zero]⟩
  | @chunk line data after len whole length size spelled ih =>
      obtain ⟨fuel, rfl⟩ : ∃ n, fuel = n + 1 := ⟨fuel - 1, by omega⟩
      have turn := readChunk_chunk whole length size
      rw [dechunkFrom, turn]
      have := readChunk_shorter (turn after)
      exact ih (by omega)

/-- The scraper decodes the texts that are spelled so, and no others. -/
theorem dechunk_ok_iff {body : Text} : (∃ o, dechunk body = .ok o) ↔ Spelled body :=
  ⟨fun ⟨_, h⟩ => (dechunkFrom_ok h).1, fun h => h.dechunks (Nat.lt_succ_self _)⟩

end Dechunking

end HttpScrape
end Metralectl
