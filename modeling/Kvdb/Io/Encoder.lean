import Mathlib.Data.FinEnum
import Mathlib.Data.PEquiv
import Mathlib.Data.List.Basic

/-!
# The encoder of the connections (`io/encoder.py`)

What goes to the store and comes back, with the encoding and the serializer as parameters. An
encoding (with its error handler) is a bijection between the strs that it encodes and the bytes that it
decodes, as strict UTF-8 is; `none` is an exception. A memoryview goes as its bytes do.

Objects come back whatever they are. A str goes unmarked, so that `null` and a str that begins with the
mark are taken for what the encoder writes itself: a str comes back exactly if it is `Clean`.
-/

namespace Kvdb

/-- A str, by its code points. -/
abbrev Str := List ℕ

abbrev Bytes := List UInt8

def Str.ofString (s : String) : Str := s.toList.map Char.toNat

def Bytes.ofString (s : String) : Bytes := s.toList.map fun c => UInt8.ofNat c.toNat

/-- A value; `ω` are the objects that are not primitive. -/
inductive PyValue (ω : Type)
  | none
  | bytes (b : Bytes)
  /-- An int or a float, by its `repr`. -/
  | number (repr : Bytes)
  | str (s : Str)
  | object (o : ω)
  deriving DecidableEq

/-- A serializer of a connection, which has `raise_errors = True`. -/
structure EncoderSerializer (ω : Type) where
  encode : ω → Option (Str ⊕ Bytes)
  decode : Str ⊕ Bytes → Option (PyValue ω)

structure Encoder (ω : Type) where
  /-- `encoding` and `encoding_errors`. -/
  codec : Str ≃. Bytes
  serializer : Option (EncoderSerializer ω)
  decodeResponses : Bool

namespace Encoder

/-- `ENCODER_SERIALIZER_PREFIX`. -/
def encoderSerializerPrefix : Str := Str.ofString "_kvdbenc_"

/-- `ENCODER_SERIALIZER_PREFIX_BYTES`. -/
def encoderSerializerPrefixBytes : Bytes := Bytes.ofString "_kvdbenc_"

/-- `ENCODER_NULL_VALUE`. -/
def encoderNullValue : Bytes := Bytes.ofString "null"

variable {ω : Type} (E : Encoder ω)

def serializationEnabled : Bool := E.serializer.isSome && E.decodeResponses

/-- `value.encode(self.encoding, self.encoding_errors)` of a str; bytes stay. -/
def toBytes : Str ⊕ Bytes → Option Bytes
  | .inl s => E.codec s
  | .inr b => some b

def encode : PyValue ω → Option Bytes
  | .bytes b => some b
  | .number repr => some repr
  | .none => some encoderNullValue
  | .str s => E.codec s
  | .object o =>
    match E.serializer with
    | some ser =>
      if E.serializationEnabled then
        (ser.encode o).bind fun value => (E.toBytes value).map (encoderSerializerPrefixBytes ++ ·)
      else none
    | none => none

/-- `decode` of bytes. After the mark is taken off, a serializer that raises leaves the rest to be
decoded as a text. -/
def decodeBytes (value : Bytes) : Option (PyValue ω) :=
  if value = encoderNullValue then some .none
  else
    match E.serializer, encoderSerializerPrefixBytes.isPrefixOf value with
    | some ser, true =>
      let value := value.drop encoderSerializerPrefixBytes.length
      (ser.decode (.inr value)).or ((E.codec.symm value).map .str)
    | _, _ => (E.codec.symm value).map .str

def decode (value : PyValue ω) (force : Bool := false) : Option (PyValue ω) :=
  if E.decodeResponses || force || E.serializationEnabled then
    match value with
    | .bytes b => E.decodeBytes b
    | .str s =>
      match E.serializer, encoderSerializerPrefix.isPrefixOf s with
      | some ser, true => ser.decode (.inl (s.drop encoderSerializerPrefix.length))
      | _, _ => some value
    | _ => some value
  else some value

/-- What is stored comes back. -/
def RoundTrips (v : PyValue ω) : Prop := ∃ b, E.encode v = some b ∧ E.decode (.bytes b) = some v

/-- The serializer is enabled, and its `decode` inverts its `encode` on the objects. -/
structure Serializes (ser : EncoderSerializer ω) : Prop where
  serializer : E.serializer = some ser
  decodeResponses : E.decodeResponses = true
  inverts : ∀ o, ∃ w b, ser.encode o = some w ∧ E.toBytes w = some b ∧
    ser.decode (.inr b) = some (.object o)

/-- A str that can be encoded, is not `null`, and has no mark before anything but what the serializer
reads as this str. Objects are clean. -/
def Clean (ser : EncoderSerializer ω) : PyValue ω → Prop
  | .str s => ∃ b, E.codec s = some b ∧ b ≠ encoderNullValue ∧
      ∀ rest, b = encoderSerializerPrefixBytes ++ rest → ser.decode (.inr rest) = some (.str s)
  | .object _ => True
  | _ => False

variable {E} {ser : EncoderSerializer ω}

theorem decode_bytes (h : E.Serializes ser) (b : Bytes) : E.decode (.bytes b) = E.decodeBytes b := by
  simp [decode, h.decodeResponses]

theorem append_ne_null (rest : Bytes) : encoderSerializerPrefixBytes ++ rest ≠ encoderNullValue := by
  intro h
  have hhead := congrArg List.head? h
  simp [encoderSerializerPrefixBytes, encoderNullValue, Bytes.ofString] at hhead

/-- Marked bytes go to the serializer, and without the mark to the encoding. -/
theorem decodeBytes_append (h : E.serializer = some ser) (rest : Bytes) :
    E.decodeBytes (encoderSerializerPrefixBytes ++ rest) =
      (ser.decode (.inr rest)).or ((E.codec.symm rest).map .str) := by
  have hpre : encoderSerializerPrefixBytes.isPrefixOf (encoderSerializerPrefixBytes ++ rest) = true :=
    List.isPrefixOf_iff_prefix.2 ⟨rest, rfl⟩
  simp only [decodeBytes, if_neg (append_ne_null rest), h, hpre, List.drop_left]

/-- Bytes without the mark are a text. -/
theorem decodeBytes_of_unmarked {b : Bytes} (hnull : b ≠ encoderNullValue)
    (hb : ∀ rest, b ≠ encoderSerializerPrefixBytes ++ rest) :
    E.decodeBytes b = (E.codec.symm b).map .str := by
  have hpre : encoderSerializerPrefixBytes.isPrefixOf b = false := by
    refine Bool.eq_false_iff.2 fun hpre => ?_
    obtain ⟨rest, hrest⟩ := List.isPrefixOf_iff_prefix.1 hpre
    exact hb rest hrest.symm
  simp only [decodeBytes, if_neg hnull, hpre]
  cases E.serializer <;> rfl

theorem roundTrips_object (h : E.Serializes ser) (o : ω) : E.RoundTrips (.object o) := by
  obtain ⟨w, b, hw, hb, hdec⟩ := h.inverts o
  refine ⟨encoderSerializerPrefixBytes ++ b, ?_, ?_⟩
  · simp [encode, serializationEnabled, h.serializer, h.decodeResponses, hw, hb]
  · rw [decode_bytes h, decodeBytes_append h.serializer, hdec]
    rfl

theorem roundTrips_str_iff (h : E.Serializes ser) (s : Str) :
    E.RoundTrips (.str s) ↔ E.Clean ser (.str s) := by
  have hiff : ∀ b, E.codec s = some b → (E.decodeBytes b = some (.str s) ↔ b ≠ encoderNullValue ∧
      ∀ rest, b = encoderSerializerPrefixBytes ++ rest → ser.decode (.inr rest) = some (.str s)) := by
    intro b hb
    have hsymm : E.codec.symm b = some s := (E.codec.eq_some_iff).2 hb
    by_cases hnull : b = encoderNullValue
    · simp [decodeBytes, hnull]
    · by_cases hpre : ∃ rest, b = encoderSerializerPrefixBytes ++ rest
      · obtain ⟨rest, rfl⟩ := hpre
        -- the rest is shorter than what `s` is encoded to, so it is no text of `s`
        have hrest : (E.codec.symm rest).map PyValue.str ≠ some (.str s : PyValue ω) := by
          intro heq
          obtain ⟨s', hs', hss⟩ := Option.map_eq_some_iff.1 heq
          cases hss
          have hback : E.codec s = some rest := (E.codec.eq_some_iff).1 hs'
          have hlen := congrArg List.length (Option.some.inj (hb.symm.trans hback))
          simp [encoderSerializerPrefixBytes, Bytes.ofString] at hlen
          omega
        rw [decodeBytes_append h.serializer]
        constructor
        · intro hor
          refine ⟨hnull, fun rest' hrest' => ?_⟩
          obtain rfl := List.append_cancel_left hrest'
          rcases Option.or_eq_some_iff.1 hor with hser | ⟨-, htext⟩
          · exact hser
          · exact absurd htext hrest
        · intro hclean
          rw [hclean.2 rest rfl]
          rfl
      · have hpre : ∀ rest, b ≠ encoderSerializerPrefixBytes ++ rest := fun rest hr => hpre ⟨rest, hr⟩
        rw [decodeBytes_of_unmarked hnull hpre, hsymm]
        exact ⟨fun _ => ⟨hnull, fun rest hr => absurd hr (hpre rest)⟩, fun _ => rfl⟩
  constructor
  · intro hw
    obtain ⟨b, hb, hdec⟩ := hw
    rw [decode_bytes h] at hdec
    exact ⟨b, hb, (hiff b hb).1 hdec⟩
  · intro hw
    obtain ⟨b, hb, hclean⟩ := hw
    exact ⟨b, hb, (decode_bytes h b).trans ((hiff b hb).2 hclean)⟩

/-- **The objects and the clean strs come back**, and no others; no two of them have the same bytes. -/
theorem decode_encode_iff (h : E.Serializes ser) :
    (∀ o, E.RoundTrips (.object o)) ∧ (∀ s, E.RoundTrips (.str s) ↔ E.Clean ser (.str s)) ∧
      ∀ v w b, E.Clean ser v → E.Clean ser w → E.encode v = some b → E.encode w = some b → v = w := by
  have hback : ∀ v b, E.Clean ser v → E.encode v = some b → E.decode (.bytes b) = some v := by
    intro v b hv hb
    have hround : E.RoundTrips v := by
      cases v with
      | str s => exact (roundTrips_str_iff h s).2 hv
      | object o => exact roundTrips_object h o
      | none | bytes | number => exact hv.elim
    obtain ⟨b', hb', hdec⟩ := hround
    rw [hb] at hb'
    cases hb'
    exact hdec
  exact ⟨roundTrips_object h, roundTrips_str_iff h, fun v w b hv hw hvb hwb =>
    Option.some.inj ((hback v b hv hvb).symm.trans (hback w b hw hwb))⟩

/-- The strict codec of ASCII. -/
def ascii : Str ≃. Bytes where
  toFun s := if ∀ c ∈ s, c < 128 then some (s.map UInt8.ofNat) else none
  invFun b := if ∀ c ∈ b, c.toNat < 128 then some (b.map UInt8.toNat) else none
  inv s b := by
    have hmap : ∀ s : Str, (∀ c ∈ s, c < 128) → (s.map UInt8.ofNat).map UInt8.toNat = s := by
      intro s hs
      rw [List.map_map]
      refine (List.map_congr_left fun c hc => ?_).trans s.map_id
      exact UInt8.toNat_ofNat_of_lt' ((hs c hc).trans (by decide))
    simp only [Option.ite_none_right_eq_some, Option.some.injEq]
    constructor
    · intro hw
      obtain ⟨hb, rfl⟩ := hw
      refine ⟨fun c hc => ?_, ?_⟩
      · obtain ⟨d, hd, rfl⟩ := List.mem_map.1 hc
        exact hb d hd
      · rw [List.map_map]
        exact (List.map_congr_left fun c _ => UInt8.ofNat_toNat).trans b.map_id
    · intro hw
      obtain ⟨hs, rfl⟩ := hw
      refine ⟨fun c hc => ?_, hmap s hs⟩
      obtain ⟨d, hd, rfl⟩ := List.mem_map.1 hc
      rw [UInt8.toNat_ofNat_of_lt' ((hs d hd).trans (by decide))]
      exact hs d hd

/-- The JSON serializer, on the empty list. -/
def jsonEmptyList : EncoderSerializer Unit where
  encode _ := some (.inl (Str.ofString "[]"))
  decode
    | .inr b => if b = Bytes.ofString "[]" then some (.object ()) else none
    | .inl s => if s = Str.ofString "[]" then some (.object ()) else none

def asciiEncoder : Encoder Unit := ⟨ascii, some jsonEmptyList, true⟩

theorem serializes_asciiEncoder : asciiEncoder.Serializes jsonEmptyList :=
  ⟨rfl, rfl, fun _ => ⟨_, Bytes.ofString "[]", rfl, by decide, rfl⟩⟩

/-- An object and a str come back. -/
theorem roundTrips_json :
    asciiEncoder.RoundTrips (.object ()) ∧ asciiEncoder.RoundTrips (.str (Str.ofString "bar")) := by
  have h := decode_encode_iff serializes_asciiEncoder
  refine ⟨h.1 (), (h.2.1 _).2 ⟨Bytes.ofString "bar", by decide, by decide, fun rest hrest => ?_⟩⟩
  have hhead := congrArg List.head? hrest
  simp [encoderSerializerPrefixBytes, Bytes.ofString] at hhead

/-- `null` comes back as None, and a mark is taken off; behind the mark there may be an object, which
has the same bytes. -/
theorem roundTrips_broken :
    let text (s : String) : PyValue Unit := .str (Str.ofString s)
    let back (v : PyValue Unit) := (asciiEncoder.encode v).bind fun b => asciiEncoder.decode (.bytes b)
    back (text "null") = some .none ∧ back (text "_kvdbenc_x") = some (text "x") ∧
      asciiEncoder.encode (text "_kvdbenc_[]") = asciiEncoder.encode (.object ()) := by
  decide +kernel

end Encoder

end Kvdb
