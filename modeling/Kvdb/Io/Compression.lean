import Kvdb.Io.Encoder
import Kvdb.Lib.Python

/-!
# Compressed values (`io/serializers/base.py`, `io/serializers/_json.py`)

`Serializer`: what the serializers share around the library that they call, and the decoding of
values from the time before the current compression. `decompress_value` tries the current
compressor, then the previous one, then zlib; what it gives up on is decoded as it is, unless an
error was raised on the way. A `Compressor` decompresses what it has compressed; `none` is an
exception.
-/

namespace Kvdb

/-- `compress` and `decompress`; a str cannot be decompressed. -/
structure Compressor where
  name : String
  compress : Bytes → Bytes
  decompress : Bytes → Option Bytes
  inverts : ∀ b, decompress (compress b) = some b

/-- What `decode` raises. -/
inductive DecodeError
  | dataError (msg : String)
  /-- `UnicodeDecodeError` of `value.decode(self.encoding)`. -/
  | unicode
  /-- An exception of the library. -/
  | library

/-- `JsonSerializer` and the serializers that are `binary`. -/
structure Serializer (V : Type) where
  name : String
  binary : Bool
  /-- `encoding`. -/
  codec : Str ≃. Bytes
  /-- `encode_value`. -/
  encodeValue : V → Str ⊕ Bytes
  /-- `decode_value`, with errors raised or not; `none` is an exception. -/
  decodeValue : Bool → Str ⊕ Bytes → Option V
  compressor : Option Compressor := none
  previousCompressor : Option Compressor := none
  raiseErrors : Bool := false
  enableDeprecationSupport : Bool := true

namespace Serializer

variable {V : Type} (ser : Serializer V)

/-- `value.encode(self.encoding)` of a str; bytes stay. -/
def toBytes : Str ⊕ Bytes → Option Bytes
  | .inl s => ser.codec s
  | .inr b => some b

def compressValue (value : Str ⊕ Bytes) : Option (Str ⊕ Bytes) :=
  match ser.compressor with
  | some c => (ser.toBytes value).map fun b => .inr (c.compress b)
  | none => some value

def encode (o : V) : Option (Str ⊕ Bytes) := ser.compressValue (ser.encodeValue o)

/-- `str(value)[:100]` in the messages; a str is shown as it is. -/
def excerpt : Str ⊕ Bytes → String
  | .inl s => String.ofList ((s.take 100).map Char.ofNat)
  | .inr b => String.ofList ((Python.bytesRepr b).toList.take 100)

def dataError (attempt : String) (value : Str ⊕ Bytes) : DecodeError :=
  .dataError ("[" ++ attempt ++ "] Error in Decompression: " ++ excerpt value)

/-- The decompression of bytes; it raises for a str. -/
def decompress (c : Compressor) : Str ⊕ Bytes → Option Bytes
  | .inl _ => none
  | .inr b => c.decompress b

variable (zlib : Compressor)

def deprecatedDecompressValue (value : Str ⊕ Bytes) : Except DecodeError (Option Bytes) :=
  match ser.previousCompressor.bind fun c => decompress c value with
  | some b => .ok (some b)
  | none =>
    match decompress zlib value with
    | some b => .ok (some b)
    | none =>
      if ser.raiseErrors then
        .error (dataError (ser.name ++ (ser.previousCompressor.elim "" fun c => "-> " ++ c.name) ++
          " -> ZLib") value)
      else .ok none

/-- `value.decode(self.encoding)` at the end of `decompress_value`. -/
def decodeText (value : Str ⊕ Bytes) : Except DecodeError (Str ⊕ Bytes) :=
  match ser.binary, value with
  | true, value => .ok value
  | false, .inr b => (ser.codec.symm b).elim (.error .unicode) fun s => .ok (.inl s)
  -- a str has no `decode`
  | false, .inl _ => .error .library

def decompressValue (value : Str ⊕ Bytes) : Except DecodeError (Option (Str ⊕ Bytes)) :=
  match ser.compressor with
  | none => .ok (some value)
  | some c =>
    match decompress c value with
    | some b => (ser.decodeText (.inr b)).map some
    | none =>
      if ser.enableDeprecationSupport ∨ ser.previousCompressor.isSome then
        (ser.deprecatedDecompressValue zlib value).bind fun
          | some b => (ser.decodeText (.inr b)).map some
          | none => .ok none
      else (ser.decodeText value).map some

/-- `decode_value` in `decode`. -/
def finish (raiseErrors : Bool) (value : Str ⊕ Bytes) : Except DecodeError V :=
  (ser.decodeValue (raiseErrors || ser.raiseErrors) value).elim (.error .library) .ok

/-- `decode`; `raiseErrors` is an argument of `JsonSerializer.decode` only. -/
def decode (value : Str ⊕ Bytes) (raiseErrors : Bool := false) : Except DecodeError V :=
  match ser.decompressValue zlib value with
  | .ok (some value) => ser.finish raiseErrors value
  | .ok none => ser.finish raiseErrors value
  | .error _ =>
    if raiseErrors || ser.raiseErrors then .error (dataError ser.name value)
    else ser.finish raiseErrors value

/-! ## Values of other compressors -/

/-- The bytes of an object that the serializer writes with the compressor `w`, or without one. -/
def written (w : Option Compressor) (o : V) : Option Bytes :=
  ({ ser with compressor := w }.encode o).bind ser.toBytes

/-- The library decodes what it has encoded, from bytes and from their text. -/
structure LibraryInverts (o : V) (b : Bytes) : Prop where
  encode : ser.toBytes (ser.encodeValue o) = some b
  bytes : ∀ raise, ser.decodeValue raise (.inr b) = some o
  text : ser.binary = false →
    ∃ s, ser.codec.symm b = some s ∧ ∀ raise, ser.decodeValue raise (.inl s) = some o

/-- The compressors that are tried. -/
def tried : List Compressor :=
  ser.compressor.toList ++ ser.previousCompressor.toList ++ [zlib]

variable {ser zlib} {o : V} {b : Bytes}

theorem written_none (h : ser.LibraryInverts o b) : ser.written none o = some b := h.encode

theorem written_some (h : ser.LibraryInverts o b) (c : Compressor) :
    ser.written (some c) o = some (c.compress b) := by
  have hb : Serializer.toBytes { ser with compressor := some c } (ser.encodeValue o) = some b :=
    h.encode
  simp only [written, encode, compressValue, hb, Option.map_some, Option.bind_some]
  rfl

/-- What has been decompressed to the bytes of the object is decoded to the object. -/
theorem decode_of_decompressValue (h : ser.LibraryInverts o b) {value : Str ⊕ Bytes} {raise : Bool}
    (hv : ser.decompressValue zlib value = (ser.decodeText (.inr b)).map some) :
    ser.decode zlib value raise = .ok o := by
  cases hbin : ser.binary with
  | true =>
    simp only [decode, hv, decodeText, hbin, Except.map, finish, h.bytes, Option.elim_some]
  | false =>
    obtain ⟨s, hs, hdec⟩ := h.text hbin
    simp only [decode, hv, decodeText, hbin, hs, Option.elim_some, Except.map, finish, hdec]

variable (zlib) in
/-- The first compressor that can decompress a value does. -/
theorem decompressValue_eq {c : Compressor} (hc : ser.compressor = some c)
    (hdep : ser.enableDeprecationSupport = true) (v : Bytes) :
    ser.decompressValue zlib (.inr v) =
      match (ser.tried zlib).findSome? fun d => d.decompress v with
      | some b => (ser.decodeText (.inr b)).map some
      | none => (ser.deprecatedDecompressValue zlib (.inr v)).map fun _ => none := by
  simp only [decompressValue, hc, decompress, hdep, true_or, ↓reduceIte, tried, Option.toList_some,
    List.cons_append, List.nil_append, List.findSome?_cons]
  cases c.decompress v with
  | some b => rfl
  | none =>
    simp only [deprecatedDecompressValue, decompress]
    cases ser.previousCompressor with
    | none =>
      simp only [Option.bind_none, Option.toList_none, List.nil_append, List.findSome?_cons,
        List.findSome?_nil]
      cases zlib.decompress v with
      | some b => rfl
      | none => cases ser.raiseErrors <;> rfl
    | some p =>
      simp only [Option.bind_some, Option.toList_some, List.cons_append, List.nil_append,
        List.findSome?_cons, List.findSome?_nil]
      cases p.decompress v with
      | some b => rfl
      | none =>
        cases zlib.decompress v with
        | some b => rfl
        | none => cases ser.raiseErrors <;> rfl

/-- If all of them raise, so does the last function, or it gives up. -/
theorem deprecatedDecompressValue_eq {v : Bytes} (h : ∀ d ∈ ser.tried zlib, d.decompress v = none) :
    (∃ e, ser.deprecatedDecompressValue zlib (.inr v) = .error e ∧ ser.raiseErrors = true) ∨
      ser.deprecatedDecompressValue zlib (.inr v) = .ok none ∧ ser.raiseErrors = false := by
  have hprev : (ser.previousCompressor.bind fun c => decompress c (.inr v)) = none := by
    cases hp : ser.previousCompressor with
    | none => rfl
    | some p => exact h p (by simp [tried, hp])
  have hzlib : decompress zlib (.inr v) = none := h zlib (by simp [tried])
  simp only [deprecatedDecompressValue, hprev, hzlib]
  cases ser.raiseErrors with
  | true => exact .inl ⟨_, rfl, rfl⟩
  | false => exact .inr ⟨rfl, rfl⟩

variable (ser zlib) in
/-- A value that no compressor decompresses is decoded as it is, unless errors are raised. -/
theorem decode_of_reject {c : Compressor} (hc : ser.compressor = some c)
    (hdep : ser.enableDeprecationSupport = true) {v : Bytes}
    (h : ∀ d ∈ ser.tried zlib, d.decompress v = none) (raise : Bool) :
    ser.decode zlib (.inr v) raise =
      if ser.raiseErrors then .error (dataError ser.name (.inr v))
      else ser.finish raise (.inr v) := by
  have hchain := decompressValue_eq zlib hc hdep v
  rw [List.findSome?_eq_none_iff.2 h] at hchain
  rcases deprecatedDecompressValue_eq h with ⟨e, he, hraise⟩ | ⟨he, hraise⟩
  · simp [decode, hchain, he, Except.map, hraise]
  · simp [decode, hchain, he, Except.map, hraise]

/-- **A value of an earlier configuration is decoded** if and only if errors are not raised or the
value was compressed. `hreject`: a compressor raises on a value that it has not compressed. -/
theorem decode_written_iff (ser : Serializer V) (zlib : Compressor) {c : Compressor}
    (hc : ser.compressor = some c) (hdep : ser.enableDeprecationSupport = true)
    {w : Option Compressor}
    (hw : w = none ∨ w = ser.previousCompressor ∨ w = some zlib ∨ w = ser.compressor) {o : V}
    {b v : Bytes} (ho : ser.LibraryInverts o b) (hv : ser.written w o = some v)
    (hreject : ∀ d ∈ ser.tried zlib, w ≠ some d → d.decompress v = none) (raise : Bool) :
    ser.decode zlib (.inr v) raise = .ok o ↔ ser.raiseErrors = false ∨ w ≠ none := by
  have hchain := decompressValue_eq zlib hc hdep v
  cases w with
  | none =>
    obtain rfl : b = v := Option.some.inj ((written_none ho).symm.trans hv)
    have hnone : ∀ d ∈ ser.tried zlib, d.decompress b = none := fun d hd =>
      hreject d hd (Option.some_ne_none d).symm
    rw [decode_of_reject ser zlib hc hdep hnone]
    cases ser.raiseErrors <;> simp [finish, ho.bytes]
  | some d =>
    obtain rfl : d.compress b = v := Option.some.inj ((written_some ho d).symm.trans hv)
    refine iff_of_true (decode_of_decompressValue ho ?_) (.inr (Option.some_ne_none d))
    have hd : d ∈ ser.tried zlib := by
      rcases hw with hw | hw | hw | hw
      · cases hw
      · simp [tried, ← hw]
      · cases hw
        simp [tried]
      · simp [tried, ← hw]
    have hfound : (ser.tried zlib).findSome? (fun d' => d'.decompress (d.compress b)) = some b := by
      cases hf : (ser.tried zlib).findSome? fun d' => d'.decompress (d.compress b) with
      | none =>
        have hraises := List.findSome?_eq_none_iff.1 hf d hd
        rw [d.inverts] at hraises
        cases hraises
      | some b' =>
        obtain ⟨d', hd', hb'⟩ := List.exists_of_findSome?_eq_some hf
        by_cases heq : d' = d
        · rw [heq, d.inverts] at hb'
          exact hb'.symm
        · rw [hreject d' hd' fun h => heq (Option.some.inj h).symm] at hb'
          cases hb'
    rw [hchain, hfound]

/-! ## A value from before the compression -/

/-- The byte `tag` before the text. -/
def tagCompressor (name : String) (tag : UInt8) : Compressor where
  name
  compress b := tag :: b
  decompress
    | [] => none
    | x :: b => if x = tag then some b else none
  inverts _ := if_pos rfl

/-- JSON of the empty list. -/
def jsonSerializer (raiseErrors : Bool) : Serializer Unit where
  name := "json"
  binary := false
  codec := Encoder.ascii
  encodeValue _ := .inl (Str.ofString "[]")
  decodeValue _
    | .inl s => if s = Str.ofString "[]" then some () else none
    | .inr b => if b = Bytes.ofString "[]" then some () else none
  compressor := some (tagCompressor "zstd" 1)
  previousCompressor := some (tagCompressor "lz4" 2)
  raiseErrors

theorem libraryInverts_json (raiseErrors : Bool) :
    (jsonSerializer raiseErrors).LibraryInverts () (Bytes.ofString "[]") where
  encode := by cases raiseErrors <;> rfl
  bytes _ := rfl
  text _ := by
    have hcodec : Encoder.ascii (Str.ofString "[]") = some (Bytes.ofString "[]") := rfl
    exact ⟨Str.ofString "[]", (PEquiv.eq_some_iff _).2 hcodec, fun _ => rfl⟩

theorem tried_json (raiseErrors : Bool) (tag : UInt8) :
    (jsonSerializer raiseErrors).tried (tagCompressor "zlib" tag) =
      [tagCompressor "zstd" 1, tagCompressor "lz4" 2, tagCompressor "zlib" tag] := rfl

/-- A value of the previous compressor is decoded although errors are raised. -/
theorem decode_written_previous :
    (jsonSerializer true).decode (tagCompressor "zlib" 3) (.inr (2 :: Bytes.ofString "[]")) true =
      .ok () := by
  refine (decode_written_iff (jsonSerializer true) (tagCompressor "zlib" 3) rfl rfl
    (.inr (.inl rfl)) (libraryInverts_json true) (by decide) ?_ true).2 (.inr (by simp [jsonSerializer]))
  intro d hd hne
  rw [tried_json] at hd
  rcases List.mem_cons.1 hd with rfl | hd
  · rfl
  · rcases List.mem_cons.1 hd with rfl | hd
    · exact absurd rfl hne
    · obtain rfl := List.mem_singleton.1 hd
      rfl

/-- **An uncompressed value** is not decoded where errors are raised, although no compressor takes
it for its own. -/
theorem decode_uncompressed :
    (jsonSerializer true).LibraryInverts () (Bytes.ofString "[]") ∧
      (jsonSerializer true).written none () = some (Bytes.ofString "[]") ∧
      (∀ d ∈ (jsonSerializer true).tried (tagCompressor "zlib" 3),
        d.decompress (Bytes.ofString "[]") = none) ∧
      (jsonSerializer true).decode (tagCompressor "zlib" 3) (.inr (Bytes.ofString "[]")) ≠
        .ok () := by
  refine ⟨libraryInverts_json true, written_none (libraryInverts_json true), ?_, ?_⟩
  · intro d hd
    rw [tried_json] at hd
    simp only [List.mem_cons, List.not_mem_nil, or_false] at hd
    rcases hd with rfl | rfl | rfl <;> rfl
  · have herror : (jsonSerializer true).decode (tagCompressor "zlib" 3)
        (.inr (Bytes.ofString "[]")) =
          .error (dataError "json" (.inr (Bytes.ofString "[]"))) := rfl
    rw [herror]
    nofun

end Serializer

/-! ## In the encoder of the connections -/

namespace Encoder

open Serializer

variable {V : Type} {zlib : Compressor}

/-- The copy of a serializer that an encoder uses. -/
def serializerCopy (ser : Serializer V) (zlib : Compressor) : EncoderSerializer V where
  encode o := ({ ser with raiseErrors := true } : Serializer V).encode o
  decode value :=
    (({ ser with raiseErrors := true } : Serializer V).decode zlib value).toOption.map .object

/-- The encoder takes an object from before the compression for a text. -/
theorem decode_uncompressed_text {E : Encoder V} {ser : Serializer V}
    (hE : E.serializer = some (serializerCopy ser zlib)) (hdecode : E.decodeResponses = true)
    {c : Compressor} (hc : ser.compressor = some c) (hdep : ser.enableDeprecationSupport = true)
    {b : Bytes} (hreject : ∀ d ∈ ser.tried zlib, d.decompress b = none) :
    E.decode (.bytes (encoderSerializerPrefixBytes ++ b)) = (E.codec.symm b).map .str := by
  have hraises : ({ ser with raiseErrors := true } : Serializer V).decode zlib (.inr b) =
      .error (dataError ser.name (.inr b)) :=
    decode_of_reject { ser with raiseErrors := true } zlib hc hdep hreject false
  have hnone : (serializerCopy ser zlib).decode (.inr b) = none := by
    simp only [serializerCopy, hraises]
    rfl
  rw [decode, hdecode, Bool.true_or, Bool.true_or, if_pos rfl, decodeBytes_append hE, hnone]
  rfl

end Encoder

end Kvdb
