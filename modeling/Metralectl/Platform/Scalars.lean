import Metralectl.Control.Reconcile
import Metralectl.Library.Framing
import Metralectl.Platform.Records
import Metralectl.Protocol.HexIds
import Metralectl.Recipe.Registry

/-!
The scalars of the platform documents: identifiers as hex, words and texts that are checked as they
are read, counts and times in their bounds. What is held of one has passed its check.
-/
namespace Metralectl
namespace Platform
open JsonText

section Spelling
variable {α : Type}

/-- A text that stands for something, and how it would have been spelled. -/
def spelledShape (parse : String → Option α) (settled : String → String) (text : α → String) :
    Shape α where
  valid | .string s => (parse s).any (text · = s) | _ => false
  settle | .string s => .string (settled s) | v => v
  read | .string s => parse s | _ => none
  write a := .string (text a)

theorem spelled_lawful {parse : String → Option α} {settled : String → String} {text : α → String}
    (own : ∀ a, settled (text a) = text a) (read : ∀ s a, parse s = some a ↔ settled s = text a) :
    (spelledShape parse settled text).Lawful := by
  refine .of_flat (fun a => congrArg Json.string (own a)) (fun v => ?_) (fun v a => ?_) fun _ =>
    .string _
  · cases v with
    | string s =>
        simp only [spelledShape, Option.any_eq_true, decide_eq_true_eq, Json.string.injEq]
        constructor
        · rintro ⟨a, _, same⟩
          exact ⟨a, same.symm⟩
        · rintro ⟨a, rfl⟩
          exact ⟨a, (read _ a).mpr (own a), rfl⟩
    | _ => simp [spelledShape]
  · cases v with
    | string s =>
        simp only [spelledShape, Json.string.injEq]
        exact read s a
    | _ => simp [spelledShape]

def spelled (parse : String → Option α) (settled : String → String) (text : α → String)
    (own : ∀ a, settled (text a) = text a) (read : ∀ s a, parse s = some a ↔ settled s = text a) :
    Form α := ⟨spelledShape parse settled text, spelled_lawful own read⟩

end Spelling

section Identifiers
open Utf8 HexId
variable {name : String} {n : Nat} {nonzero : Bool}

def lowered (s : String) : String := String.ofList (s.toList.map Char.toLower)

def hexOf (bytes : Bytes) : String := String.ofList (bytes.flatMap fun b => hexDigits 2 b.toNat)

theorem encode_hexOf (bytes : Bytes) : Utf8.encode (hexOf bytes).toList = encode bytes := by
  rw [hexOf, String.toList_ofList, encode_text]

theorem encode_toLower (c : Char) :
    String.utf8EncodeChar c.toLower = (String.utf8EncodeChar c).map toAsciiLowercase := by
  have ascii : ∀ n < 128, String.utf8EncodeChar (Char.ofNat n).toLower =
      (String.utf8EncodeChar (Char.ofNat n)).map toAsciiLowercase := by decide
  by_cases small : c.toNat < 128
  · have here := ascii c.toNat small
    rwa [Char.ofNat_toNat] at here
  · have kept : c.toLower = c := by
      unfold Char.toLower
      refine dif_neg fun upper => small ?_
      exact Nat.lt_of_le_of_lt (show c.toNat ≤ 90 from upper.2) (by decide)
    rw [kept, List.map_congr_left (g := id), List.map_id]
    intro b there
    have high : ¬b.toNat < 128 := by
      intro low
      exact small (Utf8.mem_encodeChar low there ▸ low)
    rw [toAsciiLowercase, if_neg (by omega)]
    rfl

theorem encode_lowered (s : String) :
    Utf8.encode (lowered s).toList = (Utf8.encode s.toList).map toAsciiLowercase := by
  rw [lowered, String.toList_ofList]
  induction s.toList with
  | nil => rfl
  | cons c cs ih =>
      simp only [Utf8.encode, List.map_cons, List.flatMap_cons, List.map_append] at ih ⊢
      rw [ih, encode_toLower]

/-- Bytes are written so exactly where their text is that, the case left aside. -/
theorem encode_eq_lowered {bytes : Bytes} {s : String} :
    encode bytes = (Utf8.encode s.toList).map toAsciiLowercase ↔ lowered s = hexOf bytes := by
  rw [← encode_lowered, ← encode_hexOf, eq_comm]
  constructor
  · intro same
    exact String.toList_inj.mp (Utf8.encode_inj same)
  · intro same
    rw [same]

theorem lowered_hexOf (bytes : Bytes) : lowered (hexOf bytes) = hexOf bytes := by
  rw [← encode_eq_lowered, encode_hexOf, lower_encode]

theorem parse_hexOf {s : String} {id : HexId name n nonzero} :
    (parse name n nonzero (Utf8.encode s.toList)).toOption = some id ↔
      lowered s = hexOf id.bytes := by
  have same : parse name n nonzero (Utf8.encode s.toList) = .ok id ↔ _ := parse_ok
  rw [display, encode_eq_lowered] at same
  rw [← same]
  cases parse name n nonzero (Utf8.encode s.toList) <;> simp [Except.toOption]

/-- An identifier in hex, read in either case. -/
def hexId : Form (HexId name n nonzero) :=
  spelled (fun s => (parse name n nonzero (Utf8.encode s.toList)).toOption) lowered
    (fun id => hexOf id.bytes) (fun id => lowered_hexOf id.bytes) fun _ _ => parse_hexOf

/-- So many bytes, and any. -/
abbrev HexBytes (n : Nat) : Type := {bytes : Bytes // bytes.length = n}

def HexBytes.parse (n : Nat) (s : String) : Option (HexBytes n) :=
  match read : decode n (Utf8.encode s.toList) with
  | .ok bytes => some ⟨bytes, (decode_ok.mp read).1⟩
  | .error _ => none

theorem HexBytes.parse_iff {s : String} {b : HexBytes n} :
    HexBytes.parse n s = some b ↔ lowered s = hexOf b.1 := by
  have same : decode n (Utf8.encode s.toList) = .ok b.1 ↔ _ := decode_ok
  rw [encode_eq_lowered, and_iff_right b.2] at same
  rw [← same, HexBytes.parse]
  split
  · next bytes read => simp [read, Subtype.ext_iff]
  · next e read => simp [read]

def hexBytes (n : Nat) : Form (HexBytes n) :=
  spelled (HexBytes.parse n) lowered (fun b => hexOf b.1) (fun b => lowered_hexOf b.1)
    fun _ _ => HexBytes.parse_iff

section Numbers
open Framing

theorem range_two_mul {β : Type} (f : Nat → β) (width : Nat) :
    (List.range (2 * width)).map f =
      (List.range width).flatMap fun i => [f (2 * i), f (2 * i + 1)] := by
  induction width with
  | zero => rfl
  | succ width ih =>
      have more : 2 * (width + 1) = 2 * width + 1 + 1 := by omega
      rw [more, List.range_succ, List.range_succ, List.range_succ, List.map_append, List.map_append,
        ih, List.flatMap_append, List.append_assoc]
      rfl

/-- The digits of a number are those of its bytes. -/
theorem hexDigits_bytes (width k : Nat) :
    hexDigits (2 * width) k = (bigEndian width k).flatMap fun b => hexDigits 2 b.toNat := by
  rw [hexDigits, range_two_mul, bigEndian_eq_map, List.flatMap_map]
  refine List.flatMap_congr fun i there => ?_
  have inside := List.mem_range.mp there
  have high : 16 ^ (2 * width - 1 - 2 * i) = 256 ^ (width - 1 - i) * 16 := by
    rw [show 2 * width - 1 - 2 * i = 2 * (width - 1 - i) + 1 by omega, Nat.pow_succ, Nat.pow_mul]
  have low : 16 ^ (2 * width - 1 - (2 * i + 1)) = 256 ^ (width - 1 - i) := by
    rw [show 2 * width - 1 - (2 * i + 1) = 2 * (width - 1 - i) by omega, Nat.pow_mul]
  have two (m : Nat) : hexDigits 2 m = [(m / 16 % 16).digitChar, (m % 16).digitChar] := by
    simp [hexDigits, List.range_succ]
  rw [two, UInt8.toNat_ofNat', high, low, ← Nat.div_div_eq_div_mul]
  generalize k / 256 ^ (width - 1 - i) = m
  have first : m / 16 % 16 = m % 2 ^ 8 / 16 % 16 := by omega
  have second : m % 16 = m % 2 ^ 8 % 16 := by omega
  rw [first, second]

theorem any_live (bytes : List UInt8) (name : String) : refuseZero false bytes name = .ok () := rfl

/-- The number that so many bytes are. -/
def numbered : HexId name n false ≃ BitVec (8 * n) where
  toFun id := BitVec.ofNat _ (ofBigEndian id.bytes)
  invFun b := ⟨bigEndian n b.toNat, length_bigEndian n _, any_live _ _⟩
  left_inv id := by
    have fits := ofBigEndian_lt id.bytes
    have room : (256 : Nat) ^ n = 2 ^ (8 * n) := by rw [Nat.pow_mul]
    rw [id.width, room] at fits
    have back := bigEndian_ofBigEndian id.bytes
    rw [id.width] at back
    obtain ⟨bytes, width, live⟩ := id
    simp only [BitVec.toNat_ofNat, Nat.mod_eq_of_lt fits, back]
  right_inv b := by
    have room : (256 : Nat) ^ n = 2 ^ (8 * n) := by rw [Nat.pow_mul]
    have back : ofBigEndian (bigEndian n b.toNat) = b.toNat :=
      ofBigEndian_bigEndian (room ▸ b.isLt)
    simp only [back, BitVec.ofNat_toNat, BitVec.setWidth_eq]

/-- An identifier that is held as the number it is. -/
def bits (name : String) (n : Nat) : Form (BitVec (8 * n)) :=
  via (hexId : Form (HexId name n false)) numbered

theorem write_bits (b : BitVec (8 * n)) :
    (bits name n).write b = .string (String.ofList (hexDigits (2 * n) b.toNat)) := by
  rw [hexDigits_bytes]
  rfl

def nodeId : Form NodeId := bits "NodeId" 32

end Numbers
end Identifiers

section Checked

/-- A string that passes a check as it is read. -/
def checked (p : String → Bool) : Form {s : String // p s = true} := such string p

/-- One character of a class, and so many of another at most. -/
def word (first rest : Char → Bool) (max : Nat) : List Char → Bool
  | f :: r => first f && decide (r.length ≤ max) && r.all rest
  | [] => false

/-- The `model` a client sends: a route, never an identity. -/
def isModelName (s : String) : Bool :=
  word Char.isAlphanum
    (fun c => c.isAlphanum || c == '.' || c == '_' || c == ':' || c == '/' || c == '-') 127 s.toList

abbrev ModelName : Type := {s : String // isModelName s = true}

def modelName : Form ModelName := checked isModelName

/-- Text of 1 to 256 characters. -/
def isText (s : String) : Bool := 1 ≤ s.toList.length && s.toList.length ≤ 256

abbrev Text : Type := {s : String // isText s = true}

def text : Form Text := checked isText

/-- A tenant, a project or the name of a release. -/
abbrev DnsLabel : Type := {s : String // isDnsLabel s = true}

def dnsLabel : Form DnsLabel := checked isDnsLabel

def deploymentName : Form DeploymentName :=
  via dnsLabel ⟨fun s => ⟨s.1, s.2⟩, fun n => ⟨n.text, n.label⟩, fun _ => rfl, fun _ => rfl⟩

def hardwareClass : Form HardwareClass :=
  via dnsLabel ⟨fun s => ⟨s.1, s.2⟩, fun c => ⟨c.text, c.label⟩, fun _ => rfl, fun _ => rfl⟩

def lowerDigit (c : Char) : Bool := c.isLower || c.isDigit

/-- Lower-case path segments, with no tag, digest or port. -/
def isImageRepository (s : String) : Bool :=
  let segment (seg : List Char) : Bool :=
    (seg.splitOnP fun c => c == '.' || c == '_' || c == '-').all fun p =>
      !p.isEmpty && p.all lowerDigit
  s.utf8ByteSize ≤ 255 && (pieces '/' s.toList).all segment

abbrev ImageRepository : Type := {s : String // isImageRepository s = true}

def imageRepository : Form ImageRepository := checked isImageRepository

/-- `sha256:` and 64 hex digits in lower case. -/
def isOciDigest (s : String) : Bool :=
  (stripPrefix "sha256:" s).any fun h =>
    decide (h.utf8ByteSize = 64) && h.toList.all fun c => c.isDigit || ('a' ≤ c && c ≤ 'f')

abbrev OciDigest : Type := {s : String // isOciDigest s = true}

def ociDigest : Form OciDigest := checked isOciDigest

/-- `owner/name`. -/
def isModelRepository (s : String) : Bool :=
  let part (p : List Char) : Bool :=
    decide (1 ≤ p.length) && decide (p.length ≤ 96) && p.head?.any Char.isAlphanum &&
      p.all fun c => c.isAlphanum || c == '.' || c == '_' || c == '-'
  (RecipeRef.splitOnce '/' s.toList).any fun both => part both.1 && part both.2

abbrev ModelRepository : Type := {s : String // isModelRepository s = true}

def modelRepository : Form ModelRepository := checked isModelRepository

def recipeSegment : List Char → Bool :=
  word lowerDigit (fun c => lowerDigit c || c == '.' || c == '_' || c == '-') 63

/-- `family/stem` or `stem`, in lower case. -/
def isRecipeId (s : String) : Bool :=
  match RecipeRef.splitOnce '/' s.toList with
  | some (family, stem) => recipeSegment family && recipeSegment stem
  | none => recipeSegment s.toList

/-- The id of a recipe document; the names of local recipes have no family. -/
abbrev DocumentRecipeId : Type := {s : String // isRecipeId s = true}

def recipeId : Form DocumentRecipeId := checked isRecipeId

def isFlagKey (s : String) : Bool :=
  word Char.isLower (fun c => c.isLower || c.isDigit || c == '_') 63 s.toList

def isEnvKey (s : String) : Bool :=
  word Char.isUpper (fun c => c.isUpper || c.isDigit || c == '_') 127 s.toList

/-- A value of a flag or of the environment. -/
def isValue (s : String) : Bool := s.toList.length ≤ 1024

abbrev FlagValue : Type := {s : String // isValue s = true}

def flagValue : Form FlagValue := checked isValue

/-- A map all of whose keys pass a check. -/
abbrev Keyed (p : String → Bool) : Type :=
  {m : SortedMaps.SortedMap String FlagValue // m.entries.all (p ·.1) = true}

def keyed (p : String → Bool) : Form (Keyed p) :=
  such (entries flagValue) fun m => m.entries.all (p ·.1)

end Checked

section Counting

/-- A number in these bounds. -/
abbrev Between (low high : Nat) : Type :=
  {n : UInt64 // (decide (low ≤ n.toNat) && decide (n.toNat ≤ high)) = true}

def between (low high : Nat) : Form (Between low high) :=
  such u64 fun n => decide (low ≤ n.toNat) && decide (n.toNat ≤ high)

/-- The schema version of every document. A reader refuses any other. -/
abbrev V1 : Type := Between 1 1

def v1 : Form V1 := between 1 1

/-- Milliseconds since the epoch, within a signed 64-bit integer. -/
abbrev UnixMs : Type := Between 0 (2 ^ 63 - 1)

def unixMs : Form UnixMs := between 0 (2 ^ 63 - 1)

abbrev NonZeroU32 : Type := Between 1 (2 ^ 32 - 1)

def nonZeroU32 : Form NonZeroU32 := between 1 (2 ^ 32 - 1)

abbrev NonZeroU64 : Type := Between 1 (2 ^ 64 - 1)

def nonZeroU64 : Form NonZeroU64 := between 1 (2 ^ 64 - 1)

/-- GPU memory, of a thousand. -/
abbrev Permille : Type := Between 1 1000

def permille : Form Permille := between 1 1000

theorem between_real (low high : Nat) : Real (between low high) := u64_real.such _

theorem Between.bounds {low high : Nat} (n : Between low high) :
    low ≤ n.1.toNat ∧ n.1.toNat ≤ high := by
  simpa using n.2

def Generation.ofCount (n : NonZeroU64) : Generation := ⟨n.1.toNat, n.bounds.1, n.1.toNat_lt⟩

theorem count_bounds (g : Generation) : (decide (1 ≤ (UInt64.ofNat g.num).toNat) &&
    decide ((UInt64.ofNat g.num).toNat ≤ 2 ^ 64 - 1)) = true := by
  have positive := g.nonzero
  have fits := g.fits
  rw [UInt64.toNat_ofNat', Nat.mod_eq_of_lt fits]
  simp only [Bool.and_eq_true, decide_eq_true_eq]
  omega

def generation : Form Generation :=
  via nonZeroU64 {
    toFun := Generation.ofCount
    invFun := fun g => ⟨.ofNat g.num, count_bounds g⟩
    left_inv := fun n => Subtype.ext UInt64.ofNat_toNat
    right_inv := fun g => by
      apply Generation.num_injective
      exact (UInt64.toNat_ofNat').trans (Nat.mod_eq_of_lt g.fits) }

theorem generation_real : Real generation := (between_real _ _).via _

end Counting

section Words
variable {α : Type}

/-- A word for each of a closed list. -/
def wordsOf (all : List α) (name : α → String) (complete : ∀ a, a ∈ all)
    (once : (all.map name).Nodup) : Tagged α :=
  words all name complete fun _ _ same =>
    List.inj_on_of_nodup_map once (complete _) (complete _) same

/-- Why a quantity has no value. -/
inductive AbsentReason where
  | unsupported
  | unavailable
  | notApplicable
  | lost
  | notYet
deriving DecidableEq

def AbsentReason.word : AbsentReason → String
  | .unsupported => "unsupported"
  | .unavailable => "unavailable"
  | .notApplicable => "not_applicable"
  | .lost => "lost"
  | .notYet => "not_yet"

def absentReason : Tagged AbsentReason :=
  wordsOf [.unsupported, .unavailable, .notApplicable, .lost, .notYet] AbsentReason.word
    (fun a => by cases a <;> decide) (by decide)

/-- A value read directly, one computed from values that were read, or none and why. -/
inductive Field (α : Type) where
  | measured (value : α)
  | derived (value : α)
  | absent (reason : AbsentReason)

def Field.ofParts : (α ⊕ α) ⊕ AbsentReason → Field α
  | .inl (.inl a) => .measured a
  | .inl (.inr a) => .derived a
  | .inr r => .absent r

def Field.parts : Field α → (α ⊕ α) ⊕ AbsentReason
  | .measured a => .inl (.inl a)
  | .derived a => .inl (.inr a)
  | .absent r => .inr r

def field (f : Form α) : Form (Field α) :=
  ((((carry "measured" f).or (carry "derived" f) (by simp [carry])).or
    (carry "absent" absentReason.toForm) (by simp [carry, Tagged.or])).as {
      toFun := Field.ofParts
      invFun := Field.parts
      left_inv := by rintro ((a | a) | r) <;> rfl
      right_inv := by rintro (a | a | r) <;> rfl }).toForm

end Words
end Platform
end Metralectl
