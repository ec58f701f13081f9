import FeatureRuntime.MachineInt
import FeatureRuntime.RecordBatch
import FeatureRuntime.Sensor

/-! The data callbacks of `system.sensor`: what they report of the samples that one call hands them. -/
namespace FeatureRuntime

/-- The fields of the uORB records that are reported. -/
inductive SensorField
  | latitude
  | longitude
  | altitude
  | groundSpeed
  | eph
  | pressure
  | x
  | y
  | z
  | direction
  | calStatus
  | proximity
  | light
  | temperature
  | humidity
  | event
  deriving DecidableEq

def SensorField.magic : SensorField → SensorMagic
  | .latitude | .longitude | .altitude | .groundSpeed | .eph => .gnss
  | .pressure => .baro
  | .x | .y | .z => .accel
  | .direction | .calStatus => .compa
  | .proximity => .prox
  | .light => .light
  | .temperature => .ambientTemperature
  | .humidity => .humidity
  | .event => .wristTilt

/-- The record structures of uORB: their sizes, and where the fields are in them. A proximity and a light sample have fewer
values than one of the accelerometer. -/
structure UorbRecords (F : Type) where
  size : SensorMagic → ℕ
  offset : SensorField → ℕ
  width : SensorField → ℕ
  value : SensorField → List UInt8 → F
  inside : ∀ field, offset field + width field ≤ size field.magic
  width_pos : ∀ field, 0 < width field
  prox_lt : size .prox < size .accel
  light_lt : size .light < size .accel

/-- The arithmetic on the values: rounding at a scale, degrees as radians around zero, and what a `double` or an `int`
gets of a value. -/
structure SensorNumbers (F N : Type) where
  round : ℕ → F → F
  radians : F → F
  double : F → N
  int : F → N
  isTiltUp : F → Bool

/-- What the callback of the app is invoked with: a record of the interface, or an object with the sensors by their
names. -/
inductive SensorReport (N : Type)
  | record (type : String) (values : List (String × N))
  | object (sensors : List (String × List (String × N)))

/-- A reported value: its name, the field it is read from, and the conversion. -/
structure SensorValue (F N : Type) where
  name : String
  field : SensorField
  convert : F → N

/-- `PRECISION`. -/
def sensorPrecision : ℕ := 100000

/-- The name of a sensor in `sensor_orb_table`, which the app knows it by. -/
def SensorMagic.sensorName : SensorMagic → String
  | .gnss => "GPS"
  | .baro => "BAROMETER"
  | .accel => "ACCELEROMETER"
  | .compa => "COMPASS"
  | .prox => "PROXIMITY"
  | .light => "LIGHT"
  | .step => "STEP_COUNTER"
  | .ambientTemperature => "AMBIENT_TEMPERATURE"
  | .humidity => "HUMIDITY"
  | .wristTilt => "WRIST_LIFT"

section Callbacks

variable {F N : Type} (L : UorbRecords F) (A : SensorNumbers F N) (data : List UInt8)

def readValues (position : ℕ) (values : List (SensorValue F N)) : Option (List (String × N)) :=
  values.mapM fun value => (readAt data (position + L.offset value.field) (L.width value.field)).map fun bytes =>
    (value.name,value.convert (L.value value.field bytes))

/-- The loop of the single subscriptions: the bytes are counted in records of one sensor and read as records of
another. -/
def topicLoop (counted magic : SensorMagic) (type : String) (values : List (SensorValue F N)) :
    Option (List (SensorReport N)) :=
  RecordBatch.forRecords (fun i => (readValues L data (i * L.size magic) values).map (.record type))
    0 (toInt (data.length / L.size counted : ℕ)).toNat

def sensorAccelTopicCb : Option (List (SensorReport N)) :=
  topicLoop L data .accel .accel "AccelerometerRet" [⟨"x",.x,A.int⟩,⟨"y",.y,A.int⟩,⟨"z",.z,A.int⟩]

def sensorProxTopicCb : Option (List (SensorReport N)) :=
  topicLoop L data .accel .prox "ProximityRet" [⟨"distance",.proximity,A.double⟩]

def sensorLightTopicCb : Option (List (SensorReport N)) :=
  topicLoop L data .accel .light "LightRet" [⟨"intensity",.light,A.double⟩]

def sensorCompassTopicCb : Option (List (SensorReport N)) :=
  topicLoop L data .compa .compa "CompassRet"
    [⟨"direction",.direction,A.double ∘ A.radians⟩,⟨"accuracy",.calStatus,A.double⟩]

def sensorStepTopicCb : Option (List (SensorReport N)) := some []

def sensorBaroTopicCb : Option (List (SensorReport N)) :=
  topicLoop L data .baro .baro "BaroRet" [⟨"pressure",.pressure,A.double ∘ A.round sensorPrecision⟩]

def sensorTempTopicCb : Option (List (SensorReport N)) :=
  topicLoop L data .ambientTemperature .ambientTemperature "TemperatureRet"
    [⟨"temperature",.temperature,A.double ∘ A.round 10⟩]

def sensorHumiTopicCb : Option (List (SensorReport N)) :=
  topicLoop L data .humidity .humidity "HumidityRet" [⟨"humidity",.humidity,A.double ∘ A.round 1⟩]

/-- The callback of a sensor in `sensor_orb_table`; for two of them it is null. -/
def topicCb : SensorMagic → Option (List (SensorReport N))
  | .gnss | .wristTilt => some []
  | .baro => sensorBaroTopicCb L A data
  | .accel => sensorAccelTopicCb L A data
  | .compa => sensorCompassTopicCb L A data
  | .prox => sensorProxTopicCb L A data
  | .light => sensorLightTopicCb L A data
  | .step => sensorStepTopicCb
  | .ambientTemperature => sensorTempTopicCb L A data
  | .humidity => sensorHumiTopicCb L A data

def reportFirst (name : String) (values : List (SensorValue F N)) : Option (List (SensorReport N)) :=
  (readValues L data 0 values).map fun read => [.object [(name,read)]]

/-- `sensor_topic_cb` for a subscription that goes on. The case of the proximity sensor falls through into that of the
light sensor, and both set the same object. -/
def sensorTopicCb (type : ℤ) : Option (List (SensorReport N)) :=
  match Sensors.getSensorMagic type with
  | some .gnss => reportFirst L data "GPS"
      [⟨"latitude",.latitude,A.double ∘ A.round sensorPrecision⟩,⟨"longitude",.longitude,A.double ∘ A.round sensorPrecision⟩,
        ⟨"altitude",.altitude,A.double ∘ A.round sensorPrecision⟩,
        ⟨"speed",.groundSpeed,A.double ∘ A.round sensorPrecision⟩,⟨"accuracy",.eph,A.int⟩]
  | some .baro => reportFirst L data "BAROMETER" [⟨"pressure",.pressure,A.double ∘ A.round sensorPrecision⟩]
  | some .accel => reportFirst L data "ACCELEROMETER"
      [⟨"x",.x,A.double ∘ A.round sensorPrecision⟩,⟨"y",.y,A.double ∘ A.round sensorPrecision⟩,
        ⟨"z",.z,A.double ∘ A.round sensorPrecision⟩]
  | some .prox => (readValues L data 0 [⟨"distance",.proximity,A.int⟩,⟨"light",.light,A.int⟩]).map fun read =>
      [.object [("PROXIMITY",read),("LIGHT",read)]]
  | some .light => reportFirst L data "LIGHT" [⟨"light",.light,A.int⟩]
  | some .ambientTemperature => reportFirst L data "AMBIENTTEMPERATURE" [⟨"temperature",.temperature,A.double ∘ A.round 10⟩]
  | some .humidity => reportFirst L data "HUMIDITY" [⟨"humidity",.humidity,A.int ∘ A.round 1⟩]
  | some .compa => reportFirst L data "COMPASS"
      [⟨"direction",.direction,A.double ∘ A.radians⟩,⟨"accuracy",.calStatus,A.int⟩]
  | some .wristTilt => (readAt data (L.offset .event) (L.width .event)).map fun bytes =>
      if A.isTiltUp (L.value .event bytes) then [.object []] else []
  | some .step | none => some [.object []]

end Callbacks

/-- A subscription that goes on: to one sensor, or to the sensor of a type. -/
inductive SensorSource
  | single (sensor : SingleSensor)
  | multi (magic : SensorMagic)

namespace SensorSource

variable {F N : Type} (L : UorbRecords F) (A : SensorNumbers F N)

def magic : SensorSource → SensorMagic
  | .single sensor => sensor.magic
  | .multi magic => magic

def dataCallback (data : List UInt8) : SensorSource → Option (List (SensorReport N))
  | .single sensor => topicCb L A data sensor.magic
  | .multi magic => sensorTopicCb L A data magic.index

/-- What a sample is reported as: under the record of the interface, or under the name of the sensor. -/
def reported : SensorSource → (List (String × N) → SensorReport N) × List (SensorValue F N)
  | .single (.accelerometer _) => (.record "AccelerometerRet",[⟨"x",.x,A.int⟩,⟨"y",.y,A.int⟩,⟨"z",.z,A.int⟩])
  | .single .compass => (.record "CompassRet",
      [⟨"direction",.direction,A.double ∘ A.radians⟩,⟨"accuracy",.calStatus,A.double⟩])
  | .single .proximity => (.record "ProximityRet",[⟨"distance",.proximity,A.double⟩])
  | .single .light => (.record "LightRet",[⟨"intensity",.light,A.double⟩])
  | .single .stepCounter => (.record "StepCountRet",[])
  | .single .pressure => (.record "BaroRet",[⟨"pressure",.pressure,A.double ∘ A.round sensorPrecision⟩])
  | .single .ambientTemperature => (.record "TemperatureRet",[⟨"temperature",.temperature,A.double ∘ A.round 10⟩])
  | .single .humidity => (.record "HumidityRet",[⟨"humidity",.humidity,A.double ∘ A.round 1⟩])
  | .multi magic => (fun values => .object [(magic.sensorName,values)],
      match magic with
      | .gnss => [⟨"latitude",.latitude,A.double ∘ A.round sensorPrecision⟩,
          ⟨"longitude",.longitude,A.double ∘ A.round sensorPrecision⟩,
          ⟨"altitude",.altitude,A.double ∘ A.round sensorPrecision⟩,
          ⟨"speed",.groundSpeed,A.double ∘ A.round sensorPrecision⟩,⟨"accuracy",.eph,A.int⟩]
      | .baro => [⟨"pressure",.pressure,A.double ∘ A.round sensorPrecision⟩]
      | .accel => [⟨"x",.x,A.double ∘ A.round sensorPrecision⟩,⟨"y",.y,A.double ∘ A.round sensorPrecision⟩,
          ⟨"z",.z,A.double ∘ A.round sensorPrecision⟩]
      | .compa => [⟨"direction",.direction,A.double ∘ A.radians⟩,⟨"accuracy",.calStatus,A.int⟩]
      | .prox => [⟨"distance",.proximity,A.int⟩]
      | .light => [⟨"light",.light,A.int⟩]
      | .ambientTemperature => [⟨"temperature",.temperature,A.double ∘ A.round 10⟩]
      | .humidity => [⟨"humidity",.humidity,A.int ∘ A.round 1⟩]
      | .step | .wristTilt => [])

def sampleValue (sample : List UInt8) (value : SensorValue F N) : String × N :=
  (value.name,value.convert (L.value value.field ((sample.drop (L.offset value.field)).take (L.width value.field))))

def report (source : SensorSource) (sample : List UInt8) : SensorReport N :=
  (source.reported A).1 ((source.reported A).2.map (sampleValue L sample))

/-- The callback of the app is invoked once for each sample, in order and with its report, and nothing is read behind the
batch. -/
def Delivers (source : SensorSource) (batch : RecordBatch (L.size source.magic)) : Prop :=
  source.dataCallback L A batch.block = some (batch.records.map (source.report L A))

/-- How many samples a batch may have. The proximity and light callbacks count records of the accelerometer, the callback
of the other subscriptions looks at the first sample only, and four sensors do not come under their names. -/
def Reports : SensorSource → ℕ → Prop
  | .single .proximity,count | .single .light,count | .single .stepCounter,count => count = 0
  | .single _,count => count < 2 ^ 31
  | .multi .prox,_ | .multi .step,_ | .multi .ambientTemperature,_ | .multi .wristTilt,_ => False
  | .multi _,count => count = 1

variable {L A} {magic : SensorMagic}

theorem size_pos (L : UorbRecords F) (field : SensorField) : 0 < L.size field.magic := by
  have hinside := L.inside field
  have hwidth := L.width_pos field
  omega

section Loop

variable (batch : RecordBatch (L.size magic)) {values : List (SensorValue F N)}

theorem readValues_record (hvalues : ∀ value ∈ values, value.field.magic = magic) {i : ℕ}
    (hi : i < batch.records.length) :
    readValues L batch.block (i * L.size magic) values = some (values.map (sampleValue L batch.records[i])) := by
  induction values with
  | nil => rfl
  | cons value values ih =>
    simp only [List.mem_cons,forall_eq_or_imp] at hvalues
    have hread := batch.readAt_block hi (hvalues.1 ▸ L.inside value.field)
    have hrest := ih hvalues.2
    rw [readValues] at hrest ⊢
    rw [List.mapM_cons,hread,hrest]
    rfl

theorem toNat_toInt_le (n : ℕ) : (toInt n).toNat ≤ n := by
  rw [toInt,Int.bmod_def]
  omega

theorem toNat_toInt_eq_iff (n : ℕ) : (toInt n).toNat = n ↔ n < 2 ^ 31 := by
  rw [toInt,Int.bmod_def]
  omega

theorem topicLoop_eq {counted : SensorMagic} (type : String) (hvalues : ∀ value ∈ values, value.field.magic = magic)
    (hcount : batch.records.length * L.size magic / L.size counted ≤ batch.records.length) :
    topicLoop L batch.block counted magic type values =
      some ((batch.records.take (toInt (batch.records.length * L.size magic / L.size counted : ℕ)).toNat).map
        fun sample => .record type (values.map (sampleValue L sample))) := by
  rw [topicLoop,RecordBatch.length_block]
  refine RecordBatch.forRecords_eq ?_ ((toNat_toInt_le _).trans hcount)
  intro i hi
  rw [Nat.zero_add,readValues_record batch hvalues hi,Option.map_some]

theorem take_map_eq_iff {α β : Type} {f : α → β} {xs : List α} {count : ℕ} (hcount : count ≤ xs.length) :
    some ((xs.take count).map f) = some (xs.map f) ↔ count = xs.length := by
  rw [Option.some.injEq]
  constructor
  · intro h
    have hlength := congrArg List.length h
    rw [List.length_map,List.length_map,List.length_take] at hlength
    omega
  · rintro rfl
    rw [List.take_length]

theorem topicLoop_self_iff (type : String) (hpos : 0 < L.size magic)
    (hvalues : ∀ value ∈ values, value.field.magic = magic) :
    topicLoop L batch.block magic magic type values =
      some (batch.records.map fun sample => .record type (values.map (sampleValue L sample))) ↔
      batch.records.length < 2 ^ 31 := by
  have hcount : batch.records.length * L.size magic / L.size magic = batch.records.length := Nat.mul_div_cancel _ hpos
  rw [topicLoop_eq batch type hvalues hcount.le,hcount,take_map_eq_iff (toNat_toInt_le _),toNat_toInt_eq_iff]

theorem topicLoop_larger_iff {counted : SensorMagic} (type : String) (hlt : L.size magic < L.size counted)
    (hvalues : ∀ value ∈ values, value.field.magic = magic) :
    topicLoop L batch.block counted magic type values =
      some (batch.records.map fun sample => .record type (values.map (sampleValue L sample))) ↔
      batch.records.length = 0 := by
  have hle : batch.records.length * L.size magic / L.size counted ≤ batch.records.length := by
    apply Nat.div_le_of_le_mul
    rw [Nat.mul_comm]
    exact Nat.mul_le_mul_right _ hlt.le
  have htoNat := toNat_toInt_le (batch.records.length * L.size magic / L.size counted)
  rw [topicLoop_eq batch type hvalues hle,take_map_eq_iff (htoNat.trans hle)]
  constructor
  · intro h
    by_contra hne
    have hfewer : batch.records.length * L.size magic / L.size counted < batch.records.length := by
      apply Nat.div_lt_of_lt_mul
      rw [Nat.mul_comm]
      exact Nat.mul_lt_mul_of_pos_right hlt (Nat.pos_of_ne_zero hne)
    omega
  · intro h
    omega

theorem readValues_first (hvalues : ∀ value ∈ values, value.field.magic = magic) {sample : List UInt8}
    {samples : List (List UInt8)} (hrecords : batch.records = sample :: samples) :
    readValues L batch.block 0 values = some (values.map (sampleValue L sample)) := by
  have hpos : 0 < batch.records.length := by rw [hrecords]; exact Nat.zero_lt_succ _
  have hread := readValues_record batch hvalues hpos
  rw [Nat.zero_mul] at hread
  rw [hread]
  simp only [hrecords,List.getElem_cons_zero]

theorem readAt_empty (hrecords : batch.records = []) (field : SensorField) (position : ℕ) :
    readAt batch.block (position + L.offset field) (L.width field) = none := by
  have hwidth := L.width_pos field
  rw [readAt,RecordBatch.length_block,hrecords,List.length_nil,Nat.zero_mul,if_neg (by omega)]

theorem readValues_empty (hrecords : batch.records = []) {value : SensorValue F N} :
    readValues L batch.block 0 (value :: values) = none := by
  rw [readValues,List.mapM_cons,readAt_empty batch hrecords]
  rfl

theorem reportFirst_iff (name : String) {value : SensorValue F N}
    (hvalues : ∀ other ∈ value :: values, other.field.magic = magic) :
    reportFirst L batch.block name (value :: values) = some (batch.records.map fun sample =>
      .object [(name,(value :: values).map (sampleValue L sample))]) ↔ batch.records.length = 1 := by
  rw [reportFirst]
  cases hrecords : batch.records with
  | nil =>
    rw [readValues_empty batch hrecords]
    exact iff_of_false nofun nofun
  | cons sample samples =>
    rw [readValues_first batch hvalues hrecords,Option.map_some,Option.some.injEq,List.length_cons]
    constructor
    · intro h
      have hlength := congrArg List.length h
      rw [List.length_map,List.length_cons] at hlength
      exact hlength.symm
    · intro h
      rw [List.length_eq_zero_iff.mp (Nat.succ.inj h)]
      rfl

end Loop

section Sources

variable {source : SensorSource} (batch : RecordBatch (L.size source.magic)) {type : String}
  {values : List (SensorValue F N)}

theorem delivers_self_iff (hreported : source.reported A = (.record type,values))
    (hcallback : source.dataCallback L A batch.block = topicLoop L batch.block source.magic source.magic type values)
    (hpos : 0 < L.size source.magic)
    (hvalues : ∀ value ∈ values, value.field.magic = source.magic) :
    source.Delivers L A batch ↔ batch.records.length < 2 ^ 31 := by
  have hreport : source.report L A = fun sample => .record type (values.map (sampleValue L sample)) := by
    funext sample
    rw [report,hreported]
  rw [Delivers,hcallback,hreport]
  exact topicLoop_self_iff batch type hpos hvalues

theorem delivers_larger_iff (hreported : source.reported A = (.record type,values))
    (hcallback : source.dataCallback L A batch.block = topicLoop L batch.block .accel source.magic type values)
    (hlt : L.size source.magic < L.size .accel)
    (hvalues : ∀ value ∈ values, value.field.magic = source.magic) :
    source.Delivers L A batch ↔ batch.records.length = 0 := by
  have hreport : source.report L A = fun sample => .record type (values.map (sampleValue L sample)) := by
    funext sample
    rw [report,hreported]
  rw [Delivers,hcallback,hreport]
  exact topicLoop_larger_iff batch type hlt hvalues

end Sources

section Multi

variable (batch : RecordBatch (L.size (SensorSource.multi magic).magic)) {values : List (SensorValue F N)}

theorem delivers_first_iff {value : SensorValue F N}
    (hcallback : SensorSource.dataCallback L A batch.block (.multi magic) =
      reportFirst L batch.block magic.sensorName (value :: values))
    (hreported : ((SensorSource.multi magic).reported A).2 = value :: values)
    (hvalues : ∀ other ∈ value :: values, other.field.magic = magic) :
    SensorSource.Delivers L A (.multi magic) batch ↔ batch.records.length = 1 := by
  have hreport : SensorSource.report L A (.multi magic) =
      fun sample => .object [(magic.sensorName,(value :: values).map (sampleValue L sample))] := by
    funext sample
    rw [report,hreported]
    rfl
  rw [Delivers,hcallback,hreport]
  exact reportFirst_iff batch _ hvalues

theorem delivers_head (h : SensorSource.Delivers L A (.multi magic) batch) :
    ∃ reports, SensorSource.dataCallback L A batch.block (.multi magic) = some reports ∧
      (batch.records = [] ∧ reports = [] ∨
        ∃ values rest, reports = SensorReport.object [(magic.sensorName,values)] :: rest) := by
  refine ⟨_,h,?_⟩
  cases hrecords : batch.records with
  | nil => exact .inl ⟨rfl,rfl⟩
  | cons sample samples => exact .inr ⟨_,_,rfl⟩

theorem not_delivers_other {name : String} {values : List (SensorValue F N)} (hname : name ≠ magic.sensorName)
    (hcallback : SensorSource.dataCallback L A batch.block (.multi magic) = reportFirst L batch.block name values) :
    ¬SensorSource.Delivers L A (.multi magic) batch := by
  intro h
  obtain ⟨reports,hreports,hcases⟩ := delivers_head batch h
  rw [hcallback,reportFirst,Option.map_eq_some_iff] at hreports
  obtain ⟨read,-,rfl⟩ := hreports
  rcases hcases with ⟨-,hnil⟩ | ⟨values,rest,hhead⟩
  · cases hnil
  · cases hhead
    exact hname rfl

end Multi

theorem not_delivers_prox (batch : RecordBatch (L.size (SensorSource.multi .prox).magic)) :
    ¬SensorSource.Delivers L A (.multi .prox) batch := by
  intro h
  obtain ⟨reports,hreports,hcases⟩ := delivers_head batch h
  obtain ⟨read,-,rfl⟩ := Option.map_eq_some_iff.mp hreports
  rcases hcases with ⟨-,hnil⟩ | ⟨values,rest,hhead⟩
  · cases hnil
  · cases hhead

theorem not_delivers_step (batch : RecordBatch (L.size (SensorSource.multi .step).magic)) :
    ¬SensorSource.Delivers L A (.multi .step) batch := by
  intro h
  obtain ⟨reports,hreports,hcases⟩ := delivers_head batch h
  cases hreports
  rcases hcases with ⟨-,hnil⟩ | ⟨values,rest,hhead⟩
  · cases hnil
  · cases hhead

theorem not_delivers_wristTilt (batch : RecordBatch (L.size (SensorSource.multi .wristTilt).magic)) :
    ¬SensorSource.Delivers L A (.multi .wristTilt) batch := by
  intro h
  obtain ⟨reports,hreports,hcases⟩ := delivers_head batch h
  obtain ⟨bytes,hread,hreports⟩ := Option.map_eq_some_iff.mp hreports
  rcases hcases with ⟨hrecords,-⟩ | ⟨values,rest,hhead⟩
  · have hnone := readAt_empty batch hrecords .event 0
    rw [Nat.zero_add,hread] at hnone
    cases hnone
  · rw [hhead] at hreports
    split_ifs at hreports
    cases hreports

/-- Which batches are delivered. -/
theorem batch_delivered_iff (source : SensorSource) (batch : RecordBatch (L.size source.magic)) :
    source.Delivers L A batch ↔ source.Reports batch.records.length := by
  cases source with
  | single sensor =>
    cases sensor <;> simp only [Reports]
    case accelerometer interval =>
      exact delivers_self_iff batch rfl rfl (size_pos L .x) (by simp [SensorField.magic,magic,SingleSensor.magic])
    case compass =>
      exact delivers_self_iff batch rfl rfl (size_pos L .direction)
        (by simp [SensorField.magic,magic,SingleSensor.magic])
    case proximity =>
      exact delivers_larger_iff batch rfl rfl L.prox_lt (by simp [SensorField.magic,magic,SingleSensor.magic])
    case light =>
      exact delivers_larger_iff batch rfl rfl L.light_lt (by simp [SensorField.magic,magic,SingleSensor.magic])
    case stepCounter =>
      have hcallback : dataCallback L A batch.block (.single .stepCounter) = some [] := rfl
      rw [Delivers,hcallback,Option.some.injEq,eq_comm,List.map_eq_nil_iff,List.length_eq_zero_iff]
    case pressure =>
      exact delivers_self_iff batch rfl rfl (size_pos L .pressure)
        (by simp [SensorField.magic,magic,SingleSensor.magic])
    case ambientTemperature =>
      exact delivers_self_iff batch rfl rfl (size_pos L .temperature)
        (by simp [SensorField.magic,magic,SingleSensor.magic])
    case humidity =>
      exact delivers_self_iff batch rfl rfl (size_pos L .humidity)
        (by simp [SensorField.magic,magic,SingleSensor.magic])
  | multi magic =>
    cases magic <;> simp only [Reports]
    case gnss => exact delivers_first_iff batch rfl rfl (by simp [SensorField.magic])
    case baro => exact delivers_first_iff batch rfl rfl (by simp [SensorField.magic])
    case accel => exact delivers_first_iff batch rfl rfl (by simp [SensorField.magic])
    case compa => exact delivers_first_iff batch rfl rfl (by simp [SensorField.magic])
    case light => exact delivers_first_iff batch rfl rfl (by simp [SensorField.magic])
    case humidity => exact delivers_first_iff batch rfl rfl (by simp [SensorField.magic])
    case prox => exact iff_of_false (not_delivers_prox batch) not_false
    case step => exact iff_of_false (not_delivers_step batch) not_false
    case ambientTemperature => exact iff_of_false (not_delivers_other batch (by decide) rfl) not_false
    case wristTilt => exact iff_of_false (not_delivers_wristTilt batch) not_false

def floatSize : SensorMagic → ℕ
  | .gnss => 64
  | .accel => 24
  | _ => 16

def floatOffset : SensorField → ℕ
  | .latitude => 16
  | .longitude => 20
  | .altitude => 24
  | .eph => 32
  | .groundSpeed => 52
  | .y | .calStatus => 12
  | .z => 16
  | _ => 8

theorem float_inside (field : SensorField) : floatOffset field + 4 ≤ floatSize field.magic := by
  cases field <;> decide

def floatRecords : UorbRecords (List UInt8) where
  size := floatSize
  offset := floatOffset
  width _ := 4
  value _ bytes := bytes
  inside := float_inside
  width_pos _ := Nat.zero_lt_succ 3
  prox_lt := Nat.lt_of_sub_ne_zero (Nat.succ_ne_zero 7)
  light_lt := Nat.lt_of_sub_ne_zero (Nat.succ_ne_zero 7)

def rawNumbers : SensorNumbers (List UInt8) (List UInt8) := ⟨fun _ value => value,id,id,id,fun _ => true⟩

def proximitySample : List UInt8 := [0,0,0,0,0,0,0,0,0,0,160,64,0,0,0,0]

theorem proximitySample_sized : ∀ record ∈ [proximitySample], record.length = floatRecords.size .prox := by decide

/-- One sample of the proximity sensor is less than one of the accelerometer. -/
theorem proximity_not_delivered :
    (SensorSource.single .proximity).dataCallback floatRecords rawNumbers proximitySample = some [] ∧
      ¬(SensorSource.single .proximity).Delivers floatRecords rawNumbers ⟨[proximitySample],proximitySample_sized⟩ := by
  have hcallback : (SensorSource.single .proximity).dataCallback floatRecords rawNumbers proximitySample = some [] := rfl
  refine ⟨hcallback,fun h => ?_⟩
  have hreports : (some [] : Option (List (SensorReport (List UInt8)))) = _ := hcallback.symm.trans h
  cases hreports

end SensorSource
end FeatureRuntime
