import Metralectl.Control.HttpScrape

/-!
A scrape against what a server may send: a response of either framing, cut anywhere,
and what the scraper makes of the part that arrives.
-/
namespace Metralectl
namespace HttpScrape
open Utf8

def breakBytes : Bytes := [13, 10]

/-- A header of this name and this value, as HTTP compares them. -/
def IsField (name value : String) (line : Bytes) : Prop :=
  ∃ n v before after : Text, n.map Char.toLower = name.toList ∧
    v.map Char.toLower = value.toList ∧ (∀ c ∈ before ++ after, c = ' ' ∨ c = '\t') ∧
      line = encode (n ++ ':' :: (before ++ (v ++ after)))

/-- A length in hexadecimal digits. -/
def Writes (digits : Text) (n : Nat) : Prop :=
  digits ≠ [] ∧ (∀ c ∈ digits, (JsonText.hexValue c).isSome) ∧ hexNumber digits = n

/-- What may stand between a chunk's length and the end of its line. -/
def Extension (bytes : Bytes) : Prop :=
  bytes = [] ∨ ∃ blanks more, bytes = blanks ++ 0x3B :: more ∧
    (∀ b ∈ blanks, b = 0x20 ∨ b = 0x09) ∧ ∀ b ∈ more, b ≠ 13 ∧ b ≠ 10

structure Chunk where
  digits : Text
  extension : Bytes
  data : Bytes
  some_ : data ≠ []
  written : Writes digits data.length
  extended : Extension extension

def Chunk.line (c : Chunk) : Bytes := encode c.digits ++ c.extension

def Chunk.wire (c : Chunk) : Bytes := c.line ++ breakBytes ++ (c.data ++ breakBytes)

/-- What ends a chunked body: its last line and what stands after that. -/
structure Last where
  digits : Text
  extension : Bytes
  trailer : Bytes
  written : Writes digits 0
  extended : Extension extension

def Last.line (l : Last) : Bytes := encode l.digits ++ l.extension

def Last.wire (l : Last) : Bytes := l.line ++ breakBytes ++ (l.trailer ++ breakBytes)

/-- The two ways a body is sent. -/
inductive Framing
  | length
  | chunked (chunks : List Chunk) (last : Last)

def Framing.isChunked : Framing → Bool
  | .length => false
  | .chunked _ _ => true

def Framing.Frames (headers : List Bytes) (body : Text) : Framing → Prop
  | .length =>
      (∃ h ∈ headers, IsField "content-length" (toString (encode body).length) h) ∧
        (∃ h ∈ headers, IsField "connection" "close" h) ∧
        ∀ h ∈ headers, ∀ value, ¬ IsField "transfer-encoding" value h
  | .chunked chunks _ =>
      (∃ h ∈ headers, IsField "transfer-encoding" "chunked" h) ∧
        chunks.flatMap Chunk.data = encode body

/-- A response with status 200. -/
structure Response where
  reason : Bytes
  headers : List Bytes
  body : Text
  framing : Framing
  lines : ∀ line ∈ reason :: headers, 13 ∉ line ∧ 10 ∉ line
  fields : ∀ h ∈ headers, h ≠ []
  framed : framing.Frames headers body

def Response.head (r : Response) : Bytes :=
  encode "HTTP/1.1 200".toList ++ r.reason ++ r.headers.flatMap (breakBytes ++ ·)

def Response.payload (r : Response) : Bytes :=
  match r.framing with
  | .length => encode r.body
  | .chunked chunks last => chunks.flatMap Chunk.wire ++ last.wire

def Response.wire (r : Response) : Bytes := r.head ++ (breakBytes ++ breakBytes) ++ r.payload

/-- The server sends so many of the bytes; then it closes, or the read fails. -/
def Response.arrives (r : Response) (sent : Nat) (ended : Option String) : Arrived :=
  ⟨r.wire.take sent, ended⟩

/-- How many bytes of the response the scraper gets. -/
def Response.taken (r : Response) (sent : Nat) : Nat := min (min sent r.wire.length) maxBody

/-- Nothing of the response is missing. -/
def Response.Whole (r : Response) (sent : Nat) : Prop := r.taken sent = r.wire.length

/-- The whole body, or an error. -/
def Response.Kept (r : Response) (sent : Nat) (ended : Option String) : Prop :=
  (r.Whole sent → ∀ port, scrape (fun _ _ => .ok (r.arrives sent ended)) port = .ok r.body) ∧
    (¬ r.Whole sent → ∀ port,
      ∃ e, scrape (fun _ _ => .ok (r.arrives sent ended)) port = .error e)

/-- The read comes to an end without an error: at the limit or when the server closes. -/
def Response.Reads (r : Response) (sent : Nat) (ended : Option String) : Prop :=
  maxBody ≤ min sent r.wire.length ∨ ended = none

/-- Every chunk ends between two characters. -/
def Framing.Aligned : Framing → Prop
  | .length => True
  | .chunked chunks _ => ∀ c ∈ chunks, ∃ s, c.data = encode s

/-- The head says the framing in the words the scraper looks for, or does not name it. -/
def Response.Plain (r : Response) : Prop := declaresChunked (lossy r.head) = r.framing.isChunked

/-- Of a whole response: it was read to its end, and is named and divided as the scraper
reads it. Of another: the read failed, or the head is cut, or what came of a body that is
taken for a chunked one does not spell one. -/
def Response.Holds (r : Response) (sent : Nat) (ended : Option String) : Prop :=
  (r.Whole sent → r.Reads sent ended ∧ r.Plain ∧ r.framing.Aligned) ∧
    (¬ r.Whole sent → ¬ r.Reads sent ended ∨ r.taken sent < r.head.length + 4 ∨
      declaresChunked (lossy r.head) = true ∧
        ¬ Spelled (lossy (r.payload.take (r.taken sent - (r.head.length + 4)))))

section Lines
variable {a b : Bytes} {t : Text}

theorem breakBytes_eq : breakBytes = encode crlf := rfl

theorem ascii_break (b : Bytes) : Ascii (breakBytes ++ b) := by
  intro x hx
  cases hx
  decide

/-- A line's end stays one when the bytes are read. -/
theorem lossy_break (a b : Bytes) :
    lossy (a ++ (breakBytes ++ b)) = lossy a ++ (crlf ++ lossy b) := by
  rw [lossy_append a (ascii_break b), breakBytes_eq, lossy_encode]

theorem feed_of_lossy (h : '\n' ∈ lossy a) : 10 ∈ a := by
  obtain ⟨x, member, value⟩ := mem_lossy (by decide) h
  have ten : x = 10 := UInt8.toNat_inj.mp value
  exact ten ▸ member

theorem line_of_no_feed (h : '\n' ∉ t) : Line t := by
  intro within
  have there : '\n' ∈ t ++ ['\r'] := within.subset (by decide)
  rw [List.mem_append] at there
  exact there.elim h (by decide)

/-- What has no line's end in it is no chunked body. -/
theorem Spelled.has_feed (h : Spelled t) : '\n' ∈ t := by
  cases h with
  | last _ _ => simp [crlf]
  | chunk _ _ _ _ => simp [crlf]

theorem Spelled.step {d after : Text} (turn : readChunk t = .ok (some (d, after))) :
    Spelled t ↔ Spelled after := by
  constructor
  · intro spelled
    cases spelled with
    | last whole zero =>
        rw [readChunk_last whole zero] at turn
        cases turn
    | chunk whole length size more =>
        rw [readChunk_chunk whole length size] at turn
        cases turn
        exact more
  · intro spelled
    cases readChunk_ok turn with
    | inl ended =>
        obtain ⟨_, _, _, _, _, none⟩ := ended
        cases none
    | inr goes =>
        obtain ⟨line, data, behind, len, rfl, whole, length, size, same⟩ := goes
        cases same
        exact .chunk whole length size spelled

theorem Spelled.turns {e : String} (stopped : readChunk t = .error e) : ¬ Spelled t := by
  intro spelled
  cases spelled with
  | last whole zero =>
      rw [readChunk_last whole zero] at stopped
      cases stopped
  | chunk whole length size _ =>
      rw [readChunk_chunk whole length size] at stopped
      cases stopped

end Lines

section Lengths
variable {digits : Text} {extension : Bytes} {n : Nat}

theorem hexValue_range {c : Char} (h : (JsonText.hexValue c).isSome) :
    48 ≤ c.toNat ∧ c.toNat ≤ 57 ∨ 97 ≤ c.toNat ∧ c.toNat ≤ 102 ∨
      65 ≤ c.toNat ∧ c.toNat ≤ 70 := by
  unfold JsonText.hexValue at h
  split at h
  · next digit => exact .inl digit
  · split at h
    · next small => exact .inr (.inl small)
    · split at h
      · next large => exact .inr (.inr large)
      · cases h

theorem hexValue_not_whitespace {c : Char} (h : (JsonText.hexValue c).isSome) :
    isWhitespace c = false := by
  have range := hexValue_range h
  simp only [isWhitespace, Bool.or_eq_false_iff, Bool.and_eq_false_iff, decide_eq_false_iff_not,
    beq_eq_false_iff_ne]
  omega

theorem hexValue_ne {c d : Char} (h : (JsonText.hexValue c).isSome)
    (no : JsonText.hexValue d = none) : c ≠ d := by
  rintro rfl
  rw [no] at h
  cases h

theorem fromStrRadix_writes (written : Writes digits n) :
    fromStrRadix digits = if n < 2 ^ 64 then some n else none := by
  obtain ⟨some_, hex, rfl⟩ := written
  have unsigned : digits.head? ≠ some '+' := by
    intro plus
    exact hexValue_ne (hex _ (List.mem_of_head? plus)) rfl rfl
  have all : digits.all (fun c => (JsonText.hexValue c).isSome) = true := List.all_eq_true.mpr hex
  unfold fromStrRadix
  rw [if_neg unsigned]
  by_cases fits : hexNumber digits < 2 ^ 64
  · rw [if_pos fits, if_pos ⟨some_, all, fits⟩]
  · rw [if_neg fits, if_neg fun h => fits h.2.2]

/-- The blanks of an extension, as a text. -/
theorem blanks_encode {blanks : Bytes} (blank : ∀ b ∈ blanks, b = 0x20 ∨ b = 0x09) :
    ∃ t : Text, blanks = encode t ∧ ∀ c ∈ t, c = ' ' ∨ c = '\t' := by
  induction blanks with
  | nil => exact ⟨[], rfl, fun c hc => absurd hc List.not_mem_nil⟩
  | cons b blanks ih =>
      obtain ⟨t, rfl, white⟩ := ih fun x hx => blank x (List.mem_cons_of_mem b hx)
      cases blank b List.mem_cons_self with
      | inl space =>
          refine ⟨' ' :: t, ?_, List.forall_mem_cons.mpr ⟨.inl rfl, white⟩⟩
          rw [space]
          rfl
      | inr tab =>
          refine ⟨'\t' :: t, ?_, List.forall_mem_cons.mpr ⟨.inr rfl, white⟩⟩
          rw [tab]
          rfl

/-- A length as it is written, on the line a chunk begins with. -/
theorem chunkLength_line (written : Writes digits n) (extended : Extension extension) :
    chunkLength (lossy (encode digits ++ extension)) = if n < 2 ^ 64 then some n else none := by
  have plain : ∀ c ∈ digits, decide (c ≠ ';') = true := fun c hc =>
    decide_eq_true (hexValue_ne (written.2.1 c hc) rfl)
  have solid : ∀ c ∈ digits, isWhitespace c = false := fun c hc =>
    hexValue_not_whitespace (written.2.1 c hc)
  have hex : hexOf (lossy (encode digits ++ extension)) = digits := by
    rw [hexOf, lossy_encode, List.takeWhile_append_of_pos plain]
    cases extended with
    | inl none =>
        rw [none, lossy_nil, List.takeWhile_nil, List.append_nil, trimChars_self solid]
    | inr more =>
        obtain ⟨blanks, rest, rfl, blank, _⟩ := more
        obtain ⟨t, rfl, white⟩ := blanks_encode blank
        have semicolon : (0x3B : UInt8) :: rest = encode [';'] ++ rest := rfl
        have past : ∀ c ∈ t, decide (c ≠ ';') = true := by
          intro c hc
          rcases white c hc with rfl | rfl <;> rfl
        rw [lossy_encode, semicolon, lossy_encode, List.takeWhile_append_of_pos past,
          List.singleton_append, List.takeWhile_cons_of_neg (by decide), List.append_nil]
        refine @trimChars_pad digits [] t ?_ ?_ ?_ ?_
        · intro c hc
          rcases white c hc with rfl | rfl <;> rfl
        · exact written.1
        · exact fun c hc => solid c (List.mem_of_head? hc)
        · exact fun c hc => solid c (List.mem_of_getLast? hc)
  rw [chunkLength, hex, fromStrRadix_writes written]

theorem line_no_feed (written : Writes digits n) (extended : Extension extension) :
    10 ∉ encode digits ++ extension := by
  rw [List.mem_append, not_or]
  constructor
  · intro within
    obtain ⟨c, member, byte⟩ := List.mem_flatMap.mp within
    have value : c.toNat = 10 := mem_encodeChar (by decide) byte
    have range := hexValue_range (written.2.1 c member)
    omega
  · cases extended with
    | inl none =>
        rw [none]
        exact List.not_mem_nil
    | inr more =>
        obtain ⟨blanks, rest, rfl, blank, clean⟩ := more
        intro within
        cases List.mem_append.mp within with
        | inl front => exact absurd (blank 10 front) (by decide)
        | inr behind =>
            cases List.mem_cons.mp behind with
            | inl mark => cases mark
            | inr after => exact (clean 10 after).2 rfl

end Lengths

section Chunks
variable {c : Chunk} {chunks : List Chunk} {last : Last} {s t out : Text} {rest : Bytes}
variable {fuel k : Nat}

/-- The chunk's own length, where the machine's word holds it. -/
theorem Chunk.length_eq (c : Chunk) :
    chunkLength (lossy c.line) = if c.data.length < 2 ^ 64 then some c.data.length else none :=
  chunkLength_line c.written c.extended

theorem Chunk.whole_line (c : Chunk) : Line (lossy c.line) :=
  line_of_no_feed fun feed => line_no_feed c.written c.extended (feed_of_lossy feed)

theorem Chunk.length_pos (c : Chunk) : ∃ n, c.data.length = n + 1 :=
  ⟨c.data.length - 1, (Nat.sub_add_cancel (List.length_pos_iff.mpr c.some_)).symm⟩

theorem Last.length_eq (l : Last) : chunkLength (lossy l.line) = some 0 := by
  rw [Last.line, chunkLength_line l.written l.extended]
  rfl

theorem Last.whole_line (l : Last) : Line (lossy l.line) :=
  line_of_no_feed fun feed => line_no_feed l.written l.extended (feed_of_lossy feed)

/-- The chunk's line is read, whatever comes of its data. -/
theorem Chunk.read_line (c : Chunk) (b : Bytes) :
    lossy (c.line ++ (breakBytes ++ b)) = lossy c.line ++ (crlf ++ lossy b) := lossy_break c.line b

theorem Chunk.wire_append (c : Chunk) (rest : Bytes) :
    c.wire ++ rest = c.line ++ (breakBytes ++ (c.data ++ (breakBytes ++ rest))) := by
  simp [Chunk.wire]

theorem afterBreak_crlf (text : Text) : afterBreak (crlf ++ text) = text := by
  rw [afterBreak, if_pos (List.prefix_append _ _)]
  rfl

/-- A chunk between two characters is read as its text. -/
theorem Chunk.read (data : c.data = encode s) (fits : c.data.length < 2 ^ 64) (rest : Bytes) :
    readChunk (lossy (c.wire ++ rest)) = .ok (some (s, lossy rest)) := by
  obtain ⟨n, size⟩ := c.length_pos
  have length := c.length_eq
  rw [if_pos fits, size] at length
  have text : lossy (c.data ++ (breakBytes ++ rest)) = s ++ (crlf ++ lossy rest) := by
    rw [lossy_break, data, lossy_encode_self]
  rw [c.wire_append, c.read_line, text,
    readChunk_chunk c.whole_line length (by rw [← data, size]), afterBreak_crlf]

theorem Last.read (l : Last) (b : Bytes) :
    readChunk (lossy (l.line ++ (breakBytes ++ b))) = .ok none := by
  rw [lossy_break, readChunk_last l.whole_line l.length_eq]

theorem not_encode_cut {d : Char} (some_ : 0 < k) (short : k < d.utf8Size) (s s' : Text) :
    encode s' ≠ encode s ++ (String.utf8EncodeChar d).take k := by
  intro same
  have read := congrArg lossy same
  rw [lossy_encode_self, lossy_encode, lossy_cut some_ short] at read
  rw [read, encode_append] at same
  have mark := List.append_cancel_left same
  have whole := firstChar_encode replacement []
  rw [List.append_nil] at whole
  have one : encode [replacement] = String.utf8EncodeChar replacement := List.append_nil _
  rw [← one, mark, firstChar_cut short] at whole
  cases whole

theorem splitBytes_mark (some_ : 0 < k) (short : k < 4) (text : Text) :
    splitBytes k (replacement :: text) = if k = 3 then some ([replacement], text) else none := by
  match k, some_, short with
  | 1, _, _ => rfl
  | 2, _, _ => rfl
  | 3, _, _ =>
      rw [if_pos rfl, splitBytes, if_pos (by decide)]
      cases text <;> rfl

/-- A chunk that ends inside a character: the mark takes three bytes of the text and the
part of the character fewer, or as many where the character takes four. -/
theorem Chunk.read_spoiled {d : Char} (some_ : 0 < k) (short : k < d.utf8Size)
    (data : c.data = encode s ++ (String.utf8EncodeChar d).take k) (rest : Bytes) :
    (∃ e, readChunk (lossy (c.wire ++ rest)) = .error e) ∨
      k = 3 ∧ ∃ after,
        readChunk (lossy (c.wire ++ rest)) = .ok (some (s ++ [replacement], after)) := by
  have text : lossy (c.data ++ (breakBytes ++ rest)) = s ++ replacement :: (crlf ++ lossy rest) := by
    rw [lossy_break, data, lossy_encode, lossy_cut some_ short, List.append_assoc,
      List.singleton_append]
  have size : c.data.length = (encode s).length + k := by
    rw [data, List.length_append, List.length_take, String.length_utf8EncodeChar,
      Nat.min_eq_left (Nat.le_of_lt short)]
  have four := d.utf8Size_le_four
  have split := splitBytes_append s (replacement :: (crlf ++ lossy rest)) k
  rw [← size, splitBytes_mark some_ (by omega)] at split
  have length := c.length_eq
  rw [c.wire_append, c.read_line, text]
  obtain ⟨n, positive⟩ := c.length_pos
  rw [positive] at length split
  by_cases fits : n + 1 < 2 ^ 64
  · rw [if_pos fits] at length
    by_cases three : k = 3
    · rw [if_pos three, Option.map_some] at split
      obtain ⟨whole, bytes⟩ := splitBytes_some split
      have read := readChunk_chunk c.whole_line length bytes (crlf ++ lossy rest)
      rw [← whole] at read
      exact .inr ⟨three, _, read⟩
    · rw [if_neg three, Option.map_none] at split
      exact .inl (readChunk_short c.whole_line length split)
  · rw [if_neg fits] at length
    exact .inl (readChunk_unread c.whole_line length)

/-- What is decoded then is not the text that was sent. -/
theorem Chunk.spoiled {d : Char} {more : Text} (some_ : 0 < k) (short : k < d.utf8Size)
    (data : c.data = encode s ++ (String.utf8EncodeChar d).take k) (rest : Bytes) :
    dechunkFrom fuel (lossy (c.wire ++ rest)) out ≠ .ok (out ++ (s ++ d :: more)) := by
  intro decoded
  cases fuel with
  | zero => cases decoded
  | succ fuel =>
      unfold dechunkFrom at decoded
      cases Chunk.read_spoiled some_ short data rest with
      | inl stopped =>
          obtain ⟨e, stopped⟩ := stopped
          rw [stopped] at decoded
          cases decoded
      | inr goes =>
          obtain ⟨rfl, after, read⟩ := goes
          rw [read] at decoded
          obtain ⟨_, front, _⟩ := dechunkFrom_ok decoded
          rw [List.prefix_append_right_inj, List.prefix_append_right_inj,
            List.cons_prefix_cons] at front
          rw [← front.1] at short
          exact absurd short (by decide)

/-- The whole of a chunked body is decoded to what was sent just where every chunk ends
between two characters. -/
theorem dechunk_whole (sent : chunks.flatMap Chunk.data = encode t)
    (fits : ∀ c ∈ chunks, c.data.length < 2 ^ 64)
    (enough : (lossy (chunks.flatMap Chunk.wire ++ last.wire)).length < fuel) :
    dechunkFrom fuel (lossy (chunks.flatMap Chunk.wire ++ last.wire)) out = .ok (out ++ t) ↔
      ∀ c ∈ chunks, ∃ s, c.data = encode s := by
  induction chunks generalizing t out fuel with
  | nil =>
      obtain rfl : t = [] := encode_eq_nil.mp sent.symm
      obtain ⟨fuel, rfl⟩ : ∃ n, fuel = n + 1 := ⟨fuel - 1, by omega⟩
      have read : readChunk (lossy ([].flatMap Chunk.wire ++ last.wire)) = .ok none := by
        have wire : [].flatMap Chunk.wire ++ last.wire =
            last.line ++ (breakBytes ++ (last.trailer ++ breakBytes)) := by simp [Last.wire]
        rw [wire, last.read]
      rw [dechunkFrom, read, List.append_nil]
      exact ⟨fun _ c hc => absurd hc List.not_mem_nil, fun _ => rfl⟩
  | cons c chunks ih =>
      obtain ⟨short, others⟩ := List.forall_mem_cons.mp fits
      have wire : (c :: chunks).flatMap Chunk.wire ++ last.wire =
          c.wire ++ (chunks.flatMap Chunk.wire ++ last.wire) := by simp
      rw [wire] at enough ⊢
      rw [List.flatMap_cons] at sent
      obtain ⟨s, rest, q, rfl, cut, part⟩ := take_encode t c.data.length
      rw [← sent, List.take_left] at cut
      cases part with
      | inl none =>
          rw [none, List.append_nil] at cut
          have later : chunks.flatMap Chunk.data = encode rest := by
            rw [cut, encode_append] at sent
            exact List.append_cancel_left sent
          obtain ⟨fuel, rfl⟩ : ∃ n, fuel = n + 1 := ⟨fuel - 1, by omega⟩
          have read := Chunk.read cut short (chunks.flatMap Chunk.wire ++ last.wire)
          have fewer := readChunk_shorter read
          have enough_left :
              (lossy (chunks.flatMap Chunk.wire ++ last.wire)).length < fuel := by
            omega
          have goes := @ih rest (out ++ s) fuel later others enough_left
          rw [dechunkFrom, read, ← List.append_assoc, List.forall_mem_cons]
          exact goes.trans ⟨fun each => ⟨⟨s, cut⟩, each⟩, fun each => each.2⟩
      | inr inside =>
          obtain ⟨d, more, k, rfl, some_, small, rfl⟩ := inside
          constructor
          · intro decoded
            exact absurd decoded (Chunk.spoiled some_ small cut _)
          · intro aligned
            obtain ⟨s', whole⟩ := aligned c List.mem_cons_self
            rw [cut] at whole
            exact absurd whole.symm (not_encode_cut some_ small s s')

/-- Before its end a line shows no line feed. -/
theorem not_spelled_line {line b : Bytes} (plain : 10 ∉ line) (short : k < line.length + 2) :
    ¬ Spelled (lossy ((line ++ (breakBytes ++ b)).take k)) := by
  intro spelled
  have there := feed_of_lossy spelled.has_feed
  have front : (line ++ (breakBytes ++ b)).take k <+: line ++ [13] := by
    have all : (line ++ [13]) <+: line ++ (breakBytes ++ b) := ⟨10 :: b, by simp [breakBytes]⟩
    apply List.prefix_of_prefix_length_le (List.take_prefix _ _) all
    have length : (line ++ [13]).length = line.length + 1 := by simp
    rw [List.length_take, length]
    omega
  have within := front.subset there
  rw [List.mem_append] at within
  exact within.elim plain (by decide)

/-- A text that ends with a mark too early has no room for the rest of a chunk. -/
theorem splitBytes_early {n : Nat} {d after : Text} (short : (encode s).length < n)
    (split : splitBytes n (s ++ [replacement]) = some (d, after)) : after = [] := by
  obtain ⟨whole, size⟩ := splitBytes_some split
  obtain empty | ⟨behind, x, rfl⟩ := List.eq_nil_or_concat after
  · exact empty
  · exfalso
    rw [List.concat_eq_append, ← List.append_assoc] at whole
    have same := (List.append_inj' whole rfl).1
    rw [same, encode_append, List.length_append, size] at short
    omega

/-- What is left of a chunk's data that is cut ends no line. -/
theorem left_of_cut {n j : Nat} {data : Bytes} {d after : Text} (size : n = (encode s).length)
    (whole : data = encode s) (short : j < n + 2)
    (split : splitBytes n (lossy ((data ++ (breakBytes ++ rest)).take j)) = some (d, after)) :
    '\n' ∉ after := by
  subst whole
  by_cases within : j < n
  · obtain ⟨front, more, q, rfl, cut, part⟩ := take_encode s j
    have length := congrArg List.length cut
    rw [List.length_take, ← size, Nat.min_eq_left (Nat.le_of_lt within),
      List.length_append] at length
    rw [List.take_append_of_le_length (by omega), cut] at split
    cases part with
    | inl none =>
        rw [none, List.append_nil, lossy_encode_self] at split
        obtain ⟨whole, bytes⟩ := splitBytes_some split
        rw [whole, encode_append, List.length_append, bytes] at length
        omega
    | inr inside =>
        obtain ⟨x, later, k, rfl, some_, small, rfl⟩ := inside
        rw [lossy_encode, lossy_cut some_ small] at split
        rw [splitBytes_early (by omega) split]
        exact List.not_mem_nil
  · obtain ⟨i, rfl⟩ : ∃ i, j = (encode s).length + i := ⟨j - (encode s).length, by omega⟩
    rw [List.take_length_add_append, lossy_encode, size, splitBytes_encode] at split
    cases split
    match i, short with
    | 0, _ => exact List.not_mem_nil
    | 1, _ => exact (by decide : '\n' ∉ lossy [13])
    | i + 2, short => omega

/-- Of a chunk that is cut, the part that came is no chunked body. -/
theorem Chunk.not_spelled (data : c.data = encode s) (short : k < c.wire.length) (rest : Bytes) :
    ¬ Spelled (lossy ((c.wire ++ rest).take k)) := by
  have size : c.wire.length = c.line.length + 2 + (c.data.length + 2) := by
    simp [Chunk.wire, breakBytes]
    omega
  rw [c.wire_append]
  by_cases before : k < c.line.length + 2
  · exact not_spelled_line (line_no_feed c.written c.extended) before
  · obtain ⟨j, rfl⟩ : ∃ j, k = c.line.length + (2 + j) := ⟨k - c.line.length - 2, by omega⟩
    have came : (c.line ++ (breakBytes ++ (c.data ++ (breakBytes ++ rest)))).take
        (c.line.length + (2 + j)) =
        c.line ++ (breakBytes ++ (c.data ++ (breakBytes ++ rest)).take j) := by
      have behind : (breakBytes ++ (c.data ++ (breakBytes ++ rest))).take (breakBytes.length + j) =
          breakBytes ++ (c.data ++ (breakBytes ++ rest)).take j := List.take_length_add_append j
      rw [List.take_length_add_append]
      exact congrArg (c.line ++ ·) behind
    rw [came, c.read_line]
    obtain ⟨n, positive⟩ := c.length_pos
    have length := c.length_eq
    rw [positive] at length
    by_cases fits : n + 1 < 2 ^ 64
    · rw [if_pos fits] at length
      cases split : splitBytes (n + 1) (lossy ((c.data ++ (breakBytes ++ rest)).take j)) with
      | none =>
          obtain ⟨e, stopped⟩ := readChunk_short c.whole_line length split
          exact Spelled.turns stopped
      | some both =>
          obtain ⟨d, after⟩ := both
          obtain ⟨whole, bytes⟩ := splitBytes_some split
          rw [whole, Spelled.step (readChunk_chunk c.whole_line length bytes after)]
          have none_left : '\n' ∉ after :=
            left_of_cut (positive.symm.trans (congrArg List.length data)) data (by omega) split
          intro spelled
          have there := spelled.has_feed
          unfold afterBreak at there
          split at there
          · exact none_left (List.mem_of_mem_drop there)
          · exact none_left there
    · rw [if_neg fits] at length
      obtain ⟨e, stopped⟩ := readChunk_unread c.whole_line length
      exact Spelled.turns stopped

/-- Where every chunk ends between two characters, the part that came is a chunked body
as soon as the line of the last one came. -/
theorem spelled_cut (aligned : ∀ c ∈ chunks, ∃ s, c.data = encode s) (limit : k < 2 ^ 64) :
    Spelled (lossy ((chunks.flatMap Chunk.wire ++ last.wire).take k)) ↔
      (chunks.flatMap Chunk.wire ++ (last.line ++ breakBytes)).length ≤ k := by
  induction chunks generalizing k with
  | nil =>
      have wire : [].flatMap Chunk.wire ++ last.wire =
          last.line ++ (breakBytes ++ (last.trailer ++ breakBytes)) := by simp [Last.wire]
      have length : ([].flatMap Chunk.wire ++ (last.line ++ breakBytes)).length =
          last.line.length + 2 := by simp [breakBytes]
      rw [wire, length]
      constructor
      · intro spelled
        have plain : 10 ∉ last.line := line_no_feed last.written last.extended
        by_contra short
        exact not_spelled_line plain (Nat.lt_of_not_le short) spelled
      · intro long
        obtain ⟨j, rfl⟩ : ∃ j, k = last.line.length + (2 + j) :=
          ⟨k - last.line.length - 2, by omega⟩
        have behind : (breakBytes ++ (last.trailer ++ breakBytes)).take (breakBytes.length + j) =
            breakBytes ++ (last.trailer ++ breakBytes).take j := List.take_length_add_append j
        have came : (last.line ++ (breakBytes ++ (last.trailer ++ breakBytes))).take
            (last.line.length + (2 + j)) =
            last.line ++ (breakBytes ++ (last.trailer ++ breakBytes).take j) := by
          rw [List.take_length_add_append]
          exact congrArg (last.line ++ ·) behind
        rw [came, lossy_break]
        exact .last last.whole_line last.length_eq
  | cons c chunks ih =>
      obtain ⟨⟨s, data⟩, others⟩ := List.forall_mem_cons.mp aligned
      have wire : (c :: chunks).flatMap Chunk.wire ++ last.wire =
          c.wire ++ (chunks.flatMap Chunk.wire ++ last.wire) := by simp
      have length : ((c :: chunks).flatMap Chunk.wire ++ (last.line ++ breakBytes)).length =
          c.wire.length + (chunks.flatMap Chunk.wire ++ (last.line ++ breakBytes)).length := by
        simp
      rw [wire, length]
      by_cases whole : c.wire.length ≤ k
      · obtain ⟨j, rfl⟩ : ∃ j, k = c.wire.length + j := ⟨k - c.wire.length, by omega⟩
        have fits : c.data.length < 2 ^ 64 := by
          have within : c.data.length ≤ c.wire.length := by
            simp [Chunk.wire]
            omega
          omega
        rw [List.take_length_add_append, Spelled.step (c.read data fits _), ih others (by omega)]
        omega
      · constructor
        · intro spelled
          exact absurd spelled (c.not_spelled data (Nat.lt_of_not_le whole) _)
        · intro long
          omega

end Chunks

section Heads
variable {h : UInt8} {t l rest : Bytes} {headers : List Bytes} {sep : Bytes}

/-- A separator that begins with no byte of the line does not begin in it. -/
theorem infix_past (plain : h ∉ l) (within : h :: t <:+: l ++ rest) : h :: t <:+: rest := by
  induction l with
  | nil => exact within
  | cons x l ih =>
      rw [List.mem_cons, not_or] at plain
      rw [List.cons_append, List.infix_cons_iff] at within
      cases within with
      | inl here => exact absurd (List.cons_prefix_cons.mp here).1 plain.1
      | inr later => exact ih plain.2 later

/-- Neither end of a head stands before its end: no line of it is empty. -/
theorem no_end_before (ends : sep = [13, 10, 13, 10] ∨ sep = [10, 10])
    (lines : ∀ x ∈ l :: headers, 13 ∉ x ∧ 10 ∉ x) (fields : ∀ x ∈ headers, x ≠ []) :
    ¬ sep <:+: l ++ headers.flatMap (breakBytes ++ ·) ++ [13, 10, 13] := by
  induction headers generalizing l with
  | nil =>
      obtain ⟨cr, lf⟩ := lines l List.mem_cons_self
      rw [List.flatMap_nil, List.append_nil]
      rcases ends with rfl | rfl
      · exact fun within => absurd (infix_past cr within) (by decide)
      · exact fun within => absurd (infix_past lf within) (by decide)
  | cons x headers ih =>
      obtain ⟨cr, lf⟩ := lines l List.mem_cons_self
      obtain ⟨some_, others⟩ := List.forall_mem_cons.mp fields
      have later := ih (fun y hy => lines y (List.mem_cons_of_mem l hy)) others
      obtain ⟨b, x, rfl⟩ := List.exists_cons_of_ne_nil some_
      obtain ⟨cr', lf'⟩ := lines (b :: x) (List.mem_cons_of_mem l List.mem_cons_self)
      rw [List.mem_cons, not_or] at cr' lf'
      have text : l ++ ((b :: x) :: headers).flatMap (breakBytes ++ ·) ++ [13, 10, 13] =
          l ++ 13 :: 10 :: (b :: x ++ headers.flatMap (breakBytes ++ ·) ++ [13, 10, 13]) := by
        simp [breakBytes]
      rw [text]
      rcases ends with rfl | rfl
      · intro within
        have past := infix_past cr within
        rw [List.infix_cons_iff, List.infix_cons_iff] at past
        rcases past with here | here | deeper
        · simp only [List.cons_append, List.cons_prefix_cons] at here
          exact cr'.1 here.2.2.1
        · exact absurd (List.cons_prefix_cons.mp here).1 (by decide)
        · exact later deeper
      · intro within
        have past := infix_past lf within
        rw [List.infix_cons_iff, List.infix_cons_iff] at past
        rcases past with here | here | deeper
        · exact absurd (List.cons_prefix_cons.mp here).1 (by decide)
        · simp only [List.cons_append, List.cons_prefix_cons] at here
          exact lf'.1 here.2.1
        · exact later deeper

theorem Response.no_end_before (r : Response) (ends : sep = [13, 10, 13, 10] ∨ sep = [10, 10]) :
    ¬ sep <:+: r.head ++ [13, 10, 13] := by
  apply HttpScrape.no_end_before ends _ r.fields
  intro line member
  cases List.mem_cons.mp member with
  | inl first =>
      obtain ⟨cr, lf⟩ := r.lines r.reason List.mem_cons_self
      rw [first, List.mem_append, List.mem_append, not_or, not_or]
      exact ⟨⟨by decide, cr⟩, by decide, lf⟩
  | inr later => exact r.lines line (List.mem_cons_of_mem _ later)

/-- Before the end of the head nothing is taken for it. -/
theorem Response.splitHead_short (r : Response) {m : Nat} (short : m < r.head.length + 4) :
    splitHead (lossy (r.wire.take m)) = none := by
  have front : r.wire.take m <+: r.head ++ [13, 10, 13] := by
    have all : r.head ++ [13, 10, 13] <+: r.wire :=
      ⟨10 :: r.payload, by simp [Response.wire, breakBytes]⟩
    have length : (r.head ++ [13, 10, 13]).length = r.head.length + 3 := by simp
    apply List.prefix_of_prefix_length_le (List.take_prefix _ _) all
    rw [List.length_take, length]
    omega
  have absent {text : Text} (ascii : ∀ c ∈ text, c.toNat < 128)
      (ends : encode text = [13, 10, 13, 10] ∨ encode text = [10, 10]) :
      ¬ text <:+: lossy (r.wire.take m) := fun within =>
    r.no_end_before ends ((infix_of_lossy ascii within).trans front.isInfix)
  have none_crlf : splitOnce (crlf ++ crlf) (lossy (r.wire.take m)) = none :=
    (splitOnce_none (by decide)).mpr (absent (by simp [crlf]) (.inl rfl))
  have none_feed : splitOnce ['\n', '\n'] (lossy (r.wire.take m)) = none :=
    (splitOnce_none (by decide)).mpr (absent (by simp) (.inr rfl))
  rw [splitHead, none_crlf, none_feed]
  rfl

theorem Response.splitHead_long (r : Response) (b : Bytes) :
    splitHead (lossy (r.head ++ (breakBytes ++ breakBytes) ++ b)) = some (lossy r.head, lossy b) := by
  have text : lossy (r.head ++ (breakBytes ++ breakBytes) ++ b) =
      lossy r.head ++ ((crlf ++ crlf) ++ lossy b) := by
    rw [List.append_assoc, List.append_assoc, lossy_break, breakBytes_eq, lossy_encode,
      List.append_assoc]
  have early : lossy (r.head ++ [13, 10, 13]) = lossy r.head ++ (crlf ++ crlf).dropLast := by
    rw [lossy_append r.head (b := [13, 10, 13]) (ascii_break [13])]
    rfl
  have first : ¬ crlf ++ crlf <:+: lossy r.head ++ (crlf ++ crlf).dropLast := by
    rw [← early]
    exact fun within => r.no_end_before (.inl rfl) (infix_of_lossy (by simp [crlf]) within)
  have some_ : crlf ++ crlf ≠ [] := by decide
  rw [splitHead, text, splitOnce_first some_ first]
  rfl

theorem Response.status (r : Response) : occursIn " 200" (statusLine (lossy r.head)) = true := by
  have head : lossy r.head =
      "HTTP/1.1 200".toList ++ lossy (r.reason ++ r.headers.flatMap (breakBytes ++ ·)) := by
    rw [Response.head, List.append_assoc, lossy_encode]
  have front : "HTTP/1.1 200".toList <+: statusLine (lossy r.head) := by
    rw [statusLine, head]
    exact lines_front (by decide) (by decide) (by decide)
  have within : " 200".toList <:+: "HTTP/1.1 200".toList := ⟨"HTTP/1.1".toList, [], by decide⟩
  exact decide_eq_true (within.trans front.isInfix)

end Heads

section Scrapes
variable {r : Response} {sent : Nat} {ended : Option String}

theorem Response.readToEnd_eq (reads : r.Reads sent ended) :
    readToEnd (r.arrives sent ended) = .ok (r.wire.take (r.taken sent)) := by
  have length : (r.wire.take sent).length = min sent r.wire.length := List.length_take
  unfold readToEnd Response.arrives Response.taken
  simp only [length]
  by_cases large : maxBody ≤ min sent r.wire.length
  · rw [if_pos large, List.take_take, Nat.min_eq_right large]
    congr 2
    omega
  · rw [if_neg large, reads.resolve_left large, Nat.min_eq_left (Nat.le_of_not_le large)]
    exact congrArg Except.ok List.take_eq_take_min

theorem Response.readToEnd_fails (fails : ¬ r.Reads sent ended) :
    readToEnd (r.arrives sent ended) = .error "reading the exposition" := by
  rw [Response.Reads, not_or] at fails
  have length : (r.wire.take sent).length = min sent r.wire.length := List.length_take
  unfold readToEnd Response.arrives
  simp only [length]
  rw [if_neg fails.1]
  cases ended with
  | none => exact absurd rfl fails.2
  | some e => rfl

/-- What becomes of a response the scraper has the head of. -/
theorem Response.scrape_long (reads : r.Reads sent ended) {j : Nat}
    (long : r.taken sent = r.head.length + 4 + j) (port : Nat) :
    scrape (fun _ _ => .ok (r.arrives sent ended)) port =
      if declaresChunked (lossy r.head) then dechunk (lossy (r.payload.take j))
      else .ok (lossy (r.payload.take j)) := by
  have came : r.wire.take (r.taken sent) =
      r.head ++ (breakBytes ++ breakBytes) ++ r.payload.take j := by
    have length : (r.head ++ (breakBytes ++ breakBytes)).length = r.head.length + 4 := by
      simp [breakBytes]
    rw [long, ← length, Response.wire, List.take_length_add_append]
  unfold scrape
  simp only [bind, Except.bind, r.readToEnd_eq reads, came, r.splitHead_long, r.status]
  rfl

theorem Response.scrape_short (reads : r.Reads sent ended) (short : r.taken sent < r.head.length + 4)
    (port : Nat) : ∃ e, scrape (fun _ _ => .ok (r.arrives sent ended)) port = .error e := by
  unfold scrape
  simp only [bind, Except.bind, r.readToEnd_eq reads, r.splitHead_short short]
  exact ⟨_, rfl⟩

theorem Response.scrape_fails (fails : ¬ r.Reads sent ended) (port : Nat) :
    ∃ e, scrape (fun _ _ => .ok (r.arrives sent ended)) port = .error e := by
  unfold scrape
  simp only [bind, Except.bind, r.readToEnd_fails fails]
  exact ⟨_, rfl⟩

theorem Response.length_wire (r : Response) :
    r.wire.length = r.head.length + 4 + r.payload.length := by
  simp only [Response.wire, breakBytes, List.length_append, List.length_cons, List.length_nil]

theorem length_data (chunks : List Chunk) :
    (chunks.flatMap Chunk.data).length ≤ (chunks.flatMap Chunk.wire).length ∧
      ∀ c ∈ chunks, c.data.length ≤ (chunks.flatMap Chunk.wire).length := by
  induction chunks with
  | nil => exact ⟨Nat.le_refl _, fun c hc => absurd hc List.not_mem_nil⟩
  | cons c chunks ih =>
      have own : c.data.length ≤ c.wire.length := by
        simp [Chunk.wire]
        omega
      simp only [List.flatMap_cons, List.length_append]
      refine ⟨Nat.add_le_add own ih.1, List.forall_mem_cons.mpr ⟨by omega, ?_⟩⟩
      intro d hd
      exact Nat.le_trans (ih.2 d hd) (Nat.le_add_left _ _)

/-- What is made of a whole body is that body where it is named and divided so. -/
theorem Response.whole_iff (r : Response) (small : r.payload.length ≤ maxBody) :
    (if declaresChunked (lossy r.head) then dechunk (lossy r.payload) else .ok (lossy r.payload)) =
        .ok r.body ↔ r.Plain ∧ r.framing.Aligned := by
  have framed := r.framed
  unfold Response.Plain
  unfold Response.payload at small ⊢
  cases framing : r.framing with
  | length =>
      simp only [framing] at small ⊢
      rw [lossy_encode_self]
      cases declared : declaresChunked (lossy r.head) with
      | true =>
          refine ⟨fun decoded => ?_, fun plain => by cases plain.1⟩
          have short := (dechunkFrom_ok decoded).2.2
          rw [List.length_nil, Nat.zero_add] at short
          exact absurd short (Nat.lt_irrefl _)
      | false => exact ⟨fun _ => ⟨rfl, trivial⟩, fun _ => rfl⟩
  | chunked chunks last =>
      rw [framing] at framed
      simp only [framing] at small ⊢
      have data := length_data chunks
      have sent : chunks.flatMap Chunk.data = encode r.body := framed.2
      cases declared : declaresChunked (lossy r.head) with
      | true =>
          rw [if_pos rfl]
          have limit : maxBody < 2 ^ 64 := by decide
          rw [List.length_append] at small
          have fits : ∀ c ∈ chunks, c.data.length < 2 ^ 64 := by
            intro c hc
            have := data.2 c hc
            omega
          have decoded :=
            @dechunk_whole chunks last r.body [] _ sent fits (Nat.lt_succ_self _)
          rw [dechunk]
          exact decoded.trans ⟨fun each => ⟨rfl, each⟩, fun plain => plain.2⟩
      | false =>
          rw [if_neg Bool.false_ne_true]
          refine ⟨fun read => ?_, fun plain => by cases plain.1⟩
          have long := length_le_lossy (chunks.flatMap Chunk.wire ++ last.wire)
          have same : lossy (chunks.flatMap Chunk.wire ++ last.wire) = r.body := by
            injection read
          rw [same, ← sent, List.length_append] at long
          have some_left : 0 < last.wire.length := by simp [Last.wire, breakBytes]
          omega

theorem Response.kept_whole (r : Response) (reads : r.Reads sent ended) (whole : r.Whole sent) :
    r.Kept sent ended ↔ r.Plain ∧ r.framing.Aligned := by
  have size := r.length_wire
  have long : r.taken sent = r.head.length + 4 + r.payload.length := whole.trans size
  have small : r.payload.length ≤ maxBody := by
    unfold Response.taken at long
    omega
  have made := r.scrape_long reads long
  rw [List.take_length] at made
  rw [← r.whole_iff small]
  constructor
  · intro kept
    exact (made 0).symm.trans (kept.1 whole 0)
  · intro decoded
    exact ⟨fun _ port => (made port).trans decoded, fun cut => absurd whole cut⟩

/-- A part of a body that is not taken for a chunked one is returned as it came. -/
theorem Response.kept_cut (r : Response) (reads : r.Reads sent ended) (cut : ¬ r.Whole sent)
    {j : Nat} (long : r.taken sent = r.head.length + 4 + j) :
    r.Kept sent ended ↔
      declaresChunked (lossy r.head) = true ∧ ¬ Spelled (lossy (r.payload.take j)) := by
  have made := r.scrape_long reads long
  cases declared : declaresChunked (lossy r.head) with
  | false =>
      rw [declared] at made
      refine ⟨fun kept => ?_, fun holds => by cases holds.1⟩
      obtain ⟨e, stopped⟩ := kept.2 cut 0
      rw [made 0] at stopped
      cases stopped
  | true =>
      simp only [declared, if_true] at made
      rw [← dechunk_ok_iff]
      constructor
      · intro kept
        obtain ⟨e, stopped⟩ := kept.2 cut 0
        rw [made 0] at stopped
        refine ⟨rfl, ?_⟩
        rintro ⟨o, decoded⟩
        rw [stopped] at decoded
        cases decoded
      · rintro ⟨_, none⟩
        refine ⟨fun whole => absurd whole cut, fun _ port => ?_⟩
        rw [made port]
        cases decoded : dechunk (lossy (r.payload.take j)) with
        | error e => exact ⟨e, rfl⟩
        | ok o => exact absurd ⟨o, decoded⟩ none

theorem Response.kept_iff (r : Response) (sent : Nat) (ended : Option String) :
    r.Kept sent ended ↔ r.Holds sent ended := by
  have size := r.length_wire
  by_cases reads : r.Reads sent ended
  · by_cases whole : r.Whole sent
    · rw [r.kept_whole reads whole]
      exact ⟨fun plain => ⟨fun _ => ⟨reads, plain⟩, fun cut => absurd whole cut⟩,
        fun holds => (holds.1 whole).2⟩
    · by_cases short : r.taken sent < r.head.length + 4
      · exact ⟨fun _ => ⟨fun h => absurd h whole, fun _ => .inr (.inl short)⟩,
          fun _ => ⟨fun h => absurd h whole, fun _ => r.scrape_short reads short⟩⟩
      · have long : r.taken sent =
            r.head.length + 4 + (r.taken sent - (r.head.length + 4)) := by omega
        rw [r.kept_cut reads whole long]
        exact ⟨fun spoiled => ⟨fun h => absurd h whole, fun _ => .inr (.inr spoiled)⟩,
          fun holds => ((holds.2 whole).resolve_left (absurd reads)).resolve_left short⟩
  · constructor
    · intro kept
      refine ⟨fun whole => ?_, fun _ => .inl reads⟩
      obtain ⟨e, stopped⟩ := r.scrape_fails reads 0
      rw [kept.1 whole 0] at stopped
      cases stopped
    · intro holds
      exact ⟨fun whole => absurd (holds.1 whole).1 reads, fun _ => r.scrape_fails reads⟩

/-- Exactly when a scrape is whole or an error; and for a chunked body whose chunks end
between characters, from where on a part of it is taken for the whole. -/
theorem scrape_whole (r : Response) (sent : Nat) (ended : Option String) :
    (r.Kept sent ended ↔ r.Holds sent ended) ∧
      ∀ chunks last, r.framing = .chunked chunks last → r.framing.Aligned → ∀ k ≤ maxBody,
        (Spelled (lossy (r.payload.take k)) ↔
          (chunks.flatMap Chunk.wire ++ (last.line ++ breakBytes)).length ≤ k) := by
  refine ⟨r.kept_iff sent ended, ?_⟩
  intro chunks last framing aligned k limit
  have payload : r.payload = chunks.flatMap Chunk.wire ++ last.wire := by
    unfold Response.payload
    rw [framing]
  rw [framing] at aligned
  rw [payload]
  exact spelled_cut aligned (Nat.lt_of_le_of_lt limit (by decide))

end Scrapes

section Fixed

/-- A response with a length, as an engine sends it. -/
def answered : Response where
  reason := encode " OK".toList
  headers := [encode "Content-Length: 5".toList, encode "Connection: close".toList]
  body := "up 1\n".toList
  framing := .length
  lines := by decide
  fields := by decide
  framed := by
    have blank : ∀ c ∈ [' '] ++ [], c = ' ' ∨ c = '\t' := by
      intro c hc
      exact .inl (List.mem_singleton.mp hc)
    refine ⟨⟨_, List.mem_cons_self, "Content-Length".toList, ['5'], [' '], [], rfl, rfl, blank,
        rfl⟩,
      ⟨_, List.mem_cons_of_mem _ List.mem_cons_self, "Connection".toList, "close".toList, [' '], [],
        rfl, rfl, blank, rfl⟩, ?_⟩
    rintro h member value ⟨n, v, before, after, name, _, _, line⟩
    obtain ⟨x, n, rfl⟩ : ∃ x more, n = x :: more := by
      cases n with
      | nil => cases name
      | cons x n => exact ⟨x, n, rfl⟩
    have small : x.toLower = 't' := (List.cons.inj name).1
    have capital : x = 'C' := by
      simp only [List.mem_cons, List.not_mem_nil, or_false] at member
      rcases member with rfl | rfl
      · exact (List.cons.inj (encode_inj line)).1.symm
      · exact (List.cons.inj (encode_inj line)).1.symm
    rw [capital] at small
    cases small

/-- The last byte does not come, and nothing says so. -/
theorem scrape_whole_cut :
    ¬ ∀ (r : Response) (sent : Nat) (ended : Option String), r.Kept sent ended := by
  intro kept
  have cut : answered.taken 61 ≠ answered.wire.length := by decide +kernel
  have shortened : scrape (fun _ _ => .ok (answered.arrives 61 none)) 9750 = .ok "up 1".toList := by
    decide +kernel
  obtain ⟨e, stopped⟩ := (kept answered 61 none).2 cut 9750
  rw [shortened] at stopped
  cases stopped

end Fixed

end HttpScrape
end Metralectl
