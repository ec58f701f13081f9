import FeatureRuntime.CodeUnits
import FeatureRuntime.MqttMessages

/-! Messages that come back from the MQTT codec: the fields of a message object, what `encode` and `decode` make of them,
and which messages, views and buffers keep them. -/
namespace FeatureRuntime
namespace Mqtt

structure MessageFields where
  ts : ℤ
  id : List UInt16
  carId : List UInt16
  packageName : List UInt16
  action : List UInt16
  data : List UInt8

/-- The object has these values: a whole number, strings, and a typed array over the data. -/
structure Shows (obj : MqttValue) (F : MessageFields) : Prop where
  object : getType obj = .object
  ts : ∃ number, getProperty obj "ts" = .number number ∧ number.IsInteger F.ts
  id : getProperty obj "id" = .string F.id
  carId : getProperty obj "carId" = .string F.carId
  packageName : getProperty obj "packageName" = .string F.packageName
  action : getProperty obj "action" = .string F.action
  data : ∃ view, getProperty obj "data" = .view view ∧ view.covered = F.data

namespace MessageFields

structure NoNul (F : MessageFields) : Prop where
  id : 0 ∉ F.id
  carId : 0 ∉ F.carId
  packageName : 0 ∉ F.packageName
  action : 0 ∉ F.action

end MessageFields

section Verify

variable {obj : MqttValue} {F : MessageFields}

theorem verify_iff : verify obj = true ↔ getType obj = .object ∧ getType (getProperty obj "ts") = .number ∧
    getType (getProperty obj "id") = .string ∧ getType (getProperty obj "carId") = .string ∧
    getType (getProperty obj "packageName") = .string ∧ getType (getProperty obj "action") = .string ∧
    getType (getProperty obj "data") = .typedBuffer := by
  simp [verify,fields,verifyType]

theorem Shows.verify (h : Shows obj F) : verify obj = true := by
  obtain ⟨number,hts,-⟩ := h.ts
  obtain ⟨view,hdata,-⟩ := h.data
  rw [verify_iff,hts,h.id,h.carId,h.packageName,h.action,hdata]
  exact ⟨h.object,rfl,rfl,rfl,rfl,rfl,rfl⟩

theorem eq_string_of_getType {value : MqttValue} (h : getType value = .string) : ∃ units, value = .string units := by
  cases value with
  | string units => exact ⟨units,rfl⟩
  | _ => cases h

theorem eq_view_of_getType {value : MqttValue} (h : getType value = .typedBuffer) : ∃ view, value = .view view := by
  cases value with
  | view view => exact ⟨view,rfl⟩
  | _ => cases h

/-- An object that `verify` accepts has such values, if its timestamp is whole. -/
theorem exists_shows (h : Mqtt.verify obj = true)
    (hts : ∃ number ts, getProperty obj "ts" = .number number ∧ number.IsInteger ts) : ∃ F, Shows obj F := by
  obtain ⟨hobject,-,hid,hcarId,hpackageName,haction,hdata⟩ := verify_iff.mp h
  obtain ⟨number,ts,hnumber,hinteger⟩ := hts
  obtain ⟨id,hid⟩ := eq_string_of_getType hid
  obtain ⟨carId,hcarId⟩ := eq_string_of_getType hcarId
  obtain ⟨packageName,hpackageName⟩ := eq_string_of_getType hpackageName
  obtain ⟨action,haction⟩ := eq_string_of_getType haction
  obtain ⟨view,hdata⟩ := eq_view_of_getType hdata
  exact ⟨⟨ts,id,carId,packageName,action,view.covered⟩,hobject,⟨number,hnumber,hinteger⟩,hid,hcarId,hpackageName,haction,
    view,hdata,rfl⟩

end Verify

/-- A message object that `verify` accepts, with a timestamp below `2 ^ 53` and strings without NUL. -/
structure SentMessage where
  object : MqttValue
  fields : MessageFields
  accepted : verify object = true
  shows : Shows object fields
  small : fields.ts.natAbs < 2 ^ 53
  noNul : fields.NoNul

variable (T : TextCodec) (W : WireCodec)

def MessageFields.message (F : MessageFields) : MqttMessage :=
  ⟨BitVec.ofInt 64 F.ts,T.text F.id,T.text F.carId,T.text F.packageName,T.text F.action,F.data⟩

structure MqttMessage.Carries (m : MqttMessage) (F : MessageFields) : Prop where
  ts : m.ts.toInt = F.ts
  id : T.newString m.id.bytes = F.id
  carId : T.newString m.carId.bytes = F.carId
  packageName : T.newString m.packageName.bytes = F.packageName
  action : T.newString m.action.bytes = F.action
  data : m.data = F.data

def SentMessage.RoundTrips (m : SentMessage) : Prop :=
  ∃ obj, ((encode T W (some m.object)).bind fun buffer => decode T W (some buffer)) = some obj ∧ Shows obj m.fields

/-- The object that `decode` returns is accepted, and it is encoded to a message with its fields. -/
def Reencodes (buffer : MqttValue) : Prop :=
  ∀ obj, decode T W (some buffer) = some obj → getType obj = .object → verify obj = true ∧
    ∃ F view m, Shows obj F ∧ encode T W (some obj) = some (.view view) ∧ W.unpack view.covered = some m ∧ m.Carries T F

def SentMessage.CoversAll (m : SentMessage) : Prop :=
  ∀ view, getProperty m.object "data" = .view view → view.CoversAll

section Proofs

variable {T W} {F : MessageFields} {obj : MqttValue} {m : MqttMessage}

theorem newString_text {units : List UInt16} (h : 0 ∉ units) : T.newString (T.text units).bytes = units := by
  have hbytes : (T.text units).bytes = T.toCString units := CText.cstr_append (T.noNul_toCString units h) []
  rw [hbytes,T.newString_toCString units h]

theorem ofInt_toInt64 {number : JSNumber} {ts : ℤ} (h : number.IsInteger ts) :
    BitVec.ofInt 64 number.toInt64 = BitVec.ofInt 64 ts := by
  apply BitVec.eq_of_toInt_eq
  rw [BitVec.toInt_ofInt,BitVec.toInt_ofInt,JSNumber.toInt64,h.trunc,Option.getD_some]
  exact Int.bmod_bmod ..

theorem encode_shows {view : BufferView} (h : Shows obj F) (hdata : getProperty obj "data" = .view view) :
    encode T W (some obj) = if (W.pack (MessageFields.message T { F with data := view.buffer })).length < 2 ^ 31
      then some (.view (.whole (W.pack (MessageFields.message T { F with data := view.buffer })))) else none := by
  obtain ⟨number,hts,hinteger⟩ := h.ts
  have hfields : fields.foldlM (encodeField T obj) MqttMessage.init =
      some (MessageFields.message T { F with data := view.buffer }) := by
    simp [fields,encodeField,MqttMessage.setString,MessageFields.message,hts,h.id,h.carId,h.packageName,h.action,
      hdata,toInt64,toText,toNativeBuffer,ofInt_toInt64 hinteger]
  rw [encode,if_neg (by simp [h.verify]),hfields,Option.bind_some]

variable {buffer : MqttValue}

theorem decode_message {bytes : List UInt8} (hbytes : toNativeBuffer buffer = some bytes)
    (hm : W.unpack bytes = some m) : ∃ properties, decode T W (some buffer) = some (.object properties) ∧
      properties "ts" = .number (.ofInt64 m.ts.toInt) ∧ properties "id" = .string (T.newString m.id.bytes) ∧
      properties "carId" = .string (T.newString m.carId.bytes) ∧
      properties "packageName" = .string (T.newString m.packageName.bytes) ∧
      properties "action" = .string (T.newString m.action.bytes) ∧ properties "data" = .view (.whole m.data) := by
  simp only [decode,hbytes,hm]
  simp [fields,decodeField,MqttMessage.getString]

theorem shows_decode {bytes : List UInt8} (hbytes : toNativeBuffer buffer = some bytes)
    (hm : W.unpack bytes = some m) {ts : ℤ} (hts : (JSNumber.ofInt64 m.ts.toInt).IsInteger ts) :
    ∃ obj, decode T W (some buffer) = some obj ∧ getProperty obj "data" = .view (.whole m.data) ∧
      Shows obj ⟨ts,T.newString m.id.bytes,T.newString m.carId.bytes,T.newString m.packageName.bytes,
        T.newString m.action.bytes,m.data⟩ := by
  obtain ⟨properties,hdecode,hproperty,hid,hcarId,hpackageName,haction,hdata⟩ := decode_message hbytes hm
  exact ⟨.object properties,hdecode,hdata,rfl,⟨_,hproperty,hts⟩,hid,hcarId,hpackageName,haction,
    ⟨_,hdata,BufferView.covered_whole _⟩⟩

/-- The fields of a message come back, with the data that was packed. -/
theorem decode_encode (m : SentMessage) {view : BufferView} (hview : getProperty m.object "data" = .view view)
    (hshort : (W.pack (MessageFields.message T { m.fields with data := view.buffer })).length < 2 ^ 31) :
    ∃ obj, ((encode T W (some m.object)).bind fun buffer => decode T W (some buffer)) = some obj ∧
      getProperty obj "data" = .view (.whole view.buffer) ∧ Shows obj { m.fields with data := view.buffer } := by
  have hsmall := m.small
  have hword : (BitVec.ofInt 64 m.fields.ts).toInt = m.fields.ts :=
    BitVec.toInt_ofInt_eq_self (by decide) (by omega) (by omega)
  obtain ⟨ts,hts,-,hexact,-⟩ := @JSNumber.isInteger_ofInt64 m.fields.ts (by omega) (by omega)
  rw [hexact.mpr (JSNumber.isExact_of_lt hsmall),← hword] at hts
  have hbytes : ∀ bytes, toNativeBuffer (.view (.whole bytes)) = some bytes := fun _ => rfl
  have hdecode := shows_decode (T := T) (hbytes _) (W.unpack_pack _ hshort) hts
  simp only [MessageFields.message,hword,newString_text m.noNul.id,newString_text m.noNul.carId,
    newString_text m.noNul.packageName,newString_text m.noNul.action] at hdecode
  rwa [encode_shows m.shows hview,if_pos hshort,Option.bind_some]

/-- A message comes back when its data is all of its buffer and its packed size is an `int`. -/
theorem roundTrips_iff (m : SentMessage) :
    m.RoundTrips T W ↔ m.CoversAll ∧ (W.pack (m.fields.message T)).length < 2 ^ 31 := by
  obtain ⟨view,hview,hcovered⟩ := m.shows.data
  have hcovers : m.CoversAll ↔ m.fields.data = view.buffer := by
    rw [← hcovered,BufferView.covered_eq_buffer_iff]
    constructor
    · exact fun h => h view hview
    · intro h other hother
      obtain rfl := MqttValue.view.inj (hview.symm.trans hother)
      exact h
  constructor
  · rintro ⟨obj,hobj,hshows⟩
    have hshort : (W.pack (MessageFields.message T { m.fields with data := view.buffer })).length < 2 ^ 31 := by
      by_contra hlong
      rw [encode_shows m.shows hview,if_neg hlong] at hobj
      cases hobj
    obtain ⟨obj',hobj',hdata,-⟩ := decode_encode m hview hshort
    obtain rfl := Option.some.inj (hobj.symm.trans hobj')
    obtain ⟨view',hview',hcovered'⟩ := hshows.data
    obtain rfl := MqttValue.view.inj (hdata.symm.trans hview')
    have hall : m.fields.data = view.buffer := hcovered'.symm.trans (BufferView.covered_whole _)
    refine ⟨hcovers.mpr hall,?_⟩
    rwa [← hall] at hshort
  · rintro ⟨hall,hshort⟩
    have hdata := hcovers.mp hall
    obtain ⟨obj,hobj,-,hshows⟩ := decode_encode (T := T) (W := W) m hview (by rwa [← hdata])
    rw [← hdata] at hshows
    exact ⟨obj,hobj,hshows⟩

def MqttMessage.repacked (T : TextCodec) (m : MqttMessage) : MqttMessage :=
  ⟨BitVec.ofInt 64 (JSNumber.ofInt64 m.ts.toInt).toInt64,T.text (T.newString m.id.bytes),T.text (T.newString m.carId.bytes),
    T.text (T.newString m.packageName.bytes),T.text (T.newString m.action.bytes),m.data⟩

theorem Shows.unique {G : MessageFields} (h : Shows obj F) (hG : Shows obj G) : F = G := by
  obtain ⟨number,hts,hinteger⟩ := h.ts
  obtain ⟨number',hts',hinteger'⟩ := hG.ts
  obtain ⟨view,hdata,hcovered⟩ := h.data
  obtain ⟨view',hdata',hcovered'⟩ := hG.data
  obtain rfl := MqttValue.number.inj (hts.symm.trans hts')
  obtain rfl := MqttValue.view.inj (hdata.symm.trans hdata')
  have heq := Option.some.inj (hinteger.trunc.symm.trans hinteger'.trunc)
  have hid := MqttValue.string.inj (h.id.symm.trans hG.id)
  have hcarId := MqttValue.string.inj (h.carId.symm.trans hG.carId)
  have hpackageName := MqttValue.string.inj (h.packageName.symm.trans hG.packageName)
  have haction := MqttValue.string.inj (h.action.symm.trans hG.action)
  cases F
  cases G
  simp_all

theorem decode_eq_object (h : decode T W (some buffer) = some obj) (hobj : getType obj = .object) :
    ∃ bytes m, toNativeBuffer buffer = some bytes ∧ W.unpack bytes = some m := by
  have hundefined : some MqttValue.undefined ≠ some obj := by
    rintro heq
    rw [← Option.some.inj heq] at hobj
    cases hobj
  cases hbytes : toNativeBuffer buffer with
  | none =>
    simp only [decode,hbytes] at h
    exact absurd h hundefined
  | some bytes =>
    cases hm : W.unpack bytes with
    | none =>
      simp only [decode,hbytes,hm] at h
      exact absurd h hundefined
    | some m => exact ⟨bytes,m,rfl,hm⟩

/-- An object is encoded back when its timestamp was not rounded out of 64 bits and its packed size is an `int`. -/
theorem reencodes_iff (buffer : MqttValue) : Reencodes T W buffer ↔
    ∀ bytes m, toNativeBuffer buffer = some bytes → W.unpack bytes = some m →
      m.ts.toInt < 2 ^ 63 - 512 ∧ (W.pack (m.repacked T)).length < 2 ^ 31 := by
  have hobject : ∀ {bytes m}, toNativeBuffer buffer = some bytes → W.unpack bytes = some m →
      ∃ obj ts, decode T W (some buffer) = some obj ∧
        Shows obj ⟨ts,T.newString m.id.bytes,T.newString m.carId.bytes,T.newString m.packageName.bytes,
          T.newString m.action.bytes,m.data⟩ ∧
        (m.repacked T).ts.toInt = ts.bmod (2 ^ 64) ∧ -2 ^ 63 ≤ ts ∧ (ts < 2 ^ 63 ↔ m.ts.toInt < 2 ^ 63 - 512) ∧
        encode T W (some obj) = if (W.pack (m.repacked T)).length < 2 ^ 31
          then some (.view (.whole (W.pack (m.repacked T)))) else none := by
    intro bytes m hbytes hm
    have hlow := BitVec.le_toInt m.ts
    have hhigh := BitVec.toInt_lt (x := m.ts)
    obtain ⟨ts,hts,hge,-,hlt⟩ := @JSNumber.isInteger_ofInt64 m.ts.toInt (by omega) (by omega)
    obtain ⟨obj,hobj,hdata,hshows⟩ := shows_decode (T := T) hbytes hm hts
    refine ⟨obj,ts,hobj,hshows,?_,hge,hlt,?_⟩
    · rw [MqttMessage.repacked,ofInt_toInt64 hts,BitVec.toInt_ofInt]
    · rw [encode_shows hshows hdata,MqttMessage.repacked,ofInt_toInt64 hts]
      rfl
  constructor
  · intro h bytes m hbytes hm
    obtain ⟨obj,ts,hobj,hshows,hword,hge,hlt,hencode⟩ := hobject hbytes hm
    obtain ⟨-,F,view,m',hF,hview,hm',hcarries⟩ := h obj hobj hshows.object
    have hshort : (W.pack (m.repacked T)).length < 2 ^ 31 := by
      by_contra hlong
      rw [hencode,if_neg hlong] at hview
      cases hview
    rw [hencode,if_pos hshort,Option.some.injEq,MqttValue.view.injEq] at hview
    rw [← hview,BufferView.covered_whole,W.unpack_pack _ hshort,Option.some.injEq] at hm'
    refine ⟨hlt.mp ?_,hshort⟩
    have hts : m'.ts.toInt = ts := by rw [hcarries.ts,hF.unique hshows]
    have hmax := BitVec.toInt_lt (x := m'.ts)
    omega
  · intro h obj hobj htype
    obtain ⟨bytes,m,hbytes,hm⟩ := decode_eq_object hobj htype
    obtain ⟨hts,hshort⟩ := h bytes m hbytes hm
    obtain ⟨obj',ts,hobj',hshows,hword,hge,hlt,hencode⟩ := hobject hbytes hm
    obtain rfl := Option.some.inj (hobj.symm.trans hobj')
    rw [if_pos hshort] at hencode
    refine ⟨hshows.verify,_,_,m.repacked T,hshows,hencode,?_,?_,?_,?_,?_,?_,rfl⟩
    · rw [BufferView.covered_whole,W.unpack_pack _ hshort]
    · have hinside := hlt.mpr hts
      exact hword.trans (Int.bmod_eq_of_le (by omega) (by omega))
    · exact newString_text (T.noNul_newString _ m.id.noNul)
    · exact newString_text (T.noNul_newString _ m.carId.noNul)
    · exact newString_text (T.noNul_newString _ m.packageName.noNul)
    · exact newString_text (T.noNul_newString _ m.action.noNul)

theorem readsCovered_iff (view : BufferView) : toNativeBuffer (.view view) = some view.covered ↔ view.CoversAll := by
  rw [toNativeBuffer,Option.some.injEq,eq_comm,BufferView.covered_eq_buffer_iff]

/-- Which messages come back, which views are read as themselves, and for which buffers the decoded object is encoded
back. -/
theorem codec_iff (T : TextCodec) (W : WireCodec) :
    (∀ m : SentMessage, m.RoundTrips T W ↔ m.CoversAll ∧ (W.pack (m.fields.message T)).length < 2 ^ 31) ∧
    (∀ view : BufferView, toNativeBuffer (.view view) = some view.covered ↔ view.CoversAll) ∧
    ∀ buffer, Reencodes T W buffer ↔ ∀ bytes m, toNativeBuffer buffer = some bytes → W.unpack bytes = some m →
      m.ts.toInt < 2 ^ 63 - 512 ∧ (W.pack (m.repacked T)).length < 2 ^ 31 :=
  ⟨roundTrips_iff,readsCovered_iff,reencodes_iff⟩

end Proofs

def unitText : TextCodec where
  toCString := CodeUnits.encode
  newString := CodeUnits.decode
  newString_toCString := CodeUnits.decode_encode
  noNul_toCString := CodeUnits.noNul_encode
  noNul_newString bytes h := CodeUnits.noNul_decodeFrom bytes h 0 0

def MqttMessage.wireValues (m : MqttMessage) : List ProtoWire.WireValue :=
  [.number m.ts.toNat,.bytes m.id.bytes,.bytes m.carId.bytes,.bytes m.packageName.bytes,.bytes m.action.bytes,
    .bytes m.data]

def MqttMessage.ofWireValues : List ProtoWire.WireValue → Option MqttMessage
  | [.number ts,.bytes id,.bytes carId,.bytes packageName,.bytes action,.bytes data] =>
    some ⟨BitVec.ofNat 64 ts,⟨cstr id,notMem_cstr id⟩,⟨cstr carId,notMem_cstr carId⟩,
      ⟨cstr packageName,notMem_cstr packageName⟩,⟨cstr action,notMem_cstr action⟩,data⟩
  | _ => none

theorem cstr_bytes (text : CText) : (⟨cstr text.bytes,notMem_cstr text.bytes⟩ : CText) = text := by
  obtain ⟨bytes,hbytes⟩ := text
  have hcstr : cstr bytes = bytes := by
    rw [cstr,List.takeWhile_eq_self_iff]
    intro c hc
    exact decide_eq_true fun hzero => hbytes (hzero ▸ hc)
  simp only [hcstr]

theorem ofWireValues_wireValues (m : MqttMessage) : MqttMessage.ofWireValues m.wireValues = some m := by
  simp only [MqttMessage.wireValues,MqttMessage.ofWireValues,BitVec.ofNat_toNat,BitVec.setWidth_eq,cstr_bytes]

def wireKinds : List ProtoWire.WireKind := [.number,.bytes,.bytes,.bytes,.bytes,.bytes]

theorem readFields_wireValues (m : MqttMessage) :
    (ProtoWire.readFields 1 wireKinds (ProtoWire.packFields 1 m.wireValues)).bind MqttMessage.ofWireValues = some m := by
  have hread := ProtoWire.readFields_packFields m.wireValues 1
  exact (congrArg (Option.bind · MqttMessage.ofWireValues) hread).trans (ofWireValues_wireValues m)

def protoWire : WireCodec where
  pack m := ProtoWire.packFields 1 m.wireValues
  unpack bytes := (ProtoWire.readFields 1 wireKinds bytes).bind MqttMessage.ofWireValues
  unpack_pack m _ := readFields_wireValues m

def lastTwo : BufferView := ⟨[1,2,3],1,2,1,Nat.le_refl 3⟩

def slicedObject : MqttValue :=
  .object fun name => if name = "ts" then .number (.int 5) else if name = "data" then .view lastTwo else .string [0x63]

theorem slicedObject_shows : Shows slicedObject ⟨5,[0x63],[0x63],[0x63],[0x63],[2,3]⟩ :=
  ⟨rfl,⟨.int 5,rfl,rfl⟩,rfl,rfl,rfl,rfl,⟨lastTwo,rfl,rfl⟩⟩

theorem slicedObject_small : (5 : ℤ).natAbs < 2 ^ 53 := by decide

theorem slicedObject_noNul : MessageFields.NoNul ⟨5,[0x63],[0x63],[0x63],[0x63],[2,3]⟩ :=
  ⟨by decide,by decide,by decide,by decide⟩

def sliced : SentMessage :=
  ⟨slicedObject,⟨5,[0x63],[0x63],[0x63],[0x63],[2,3]⟩,slicedObject_shows.verify,slicedObject_shows,slicedObject_small,
    slicedObject_noNul⟩

/-- The byte before the array is packed with it. -/
theorem sliced_not_kept : ¬sliced.RoundTrips unitText protoWire := by
  intro h
  have hall := ((roundTrips_iff sliced).mp h).1 lastTwo rfl
  exact absurd hall (show ¬2 * 1 = 3 by decide)

end Mqtt
end FeatureRuntime
