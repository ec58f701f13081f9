import FeatureRuntime.AppPath
import FeatureRuntime.HeaderText
import FeatureRuntime.MachineInt

/-! The completion of a fetch: the size that the headers give to the body, the bytes of the body that are
read, and the data that the promise of the script is settled with. -/
namespace FeatureRuntime.FetchResponse

open HeaderText

inductive ResponseType
  | none
  | txt
  | json
  | file
  | arraybuffer
  deriving DecidableEq

inductive RequestState
  | done
  | cancel
  | error
  deriving DecidableEq

/-- What the transport delivers. The size of the body is the number of its bytes. -/
structure Response where
  state : RequestState
  httpcode : ℤ
  headers : Option CText
  body : Option Bytes

/-- The build, the app, and the engine. -/
structure Host (J : Type) where
  /-- The bits of `long` and of `size_t`. -/
  width : ℕ
  logDebug : Bool
  logError : Bool
  libCurl : Bool
  parseJson : Bytes → Option J
  /-- `JS_NewString` on bytes that are no UTF-8: there are characters in the place of what it cannot decode. -/
  newString : Bytes → String
  paths : PathConfig
  pkg : CString

inductive Data (J : Type)
  | text (string : String)
  | json (value : J)
  | undefined
  deriving DecidableEq

inductive Settlement (J : Type)
  | resolve (code : ℤ) (headers : Properties) (data : Data J)
  | reject (code : ℤ) (msg : Option Bytes)
  | unsettled

def isSpace (c : UInt8) : Bool := c = 32 || (9 ≤ c && c ≤ 13)

def isDigit (c : UInt8) : Bool := 48 ≤ c && c ≤ 57

def digitsValue (s : Bytes) : ℤ :=
  ((s.takeWhile isDigit).foldl (fun v c => 10 * v + (c.toNat - 48)) 0 : ℕ)

/-- `get_cy_from_response` after `check_header`: the headers as `parse_header_cb` enters them into a map,
where the first entry of a name stays. -/
def insertNew (headers : Properties) (name value : Bytes) : Properties :=
  if (propertyOf headers name).isSome then headers else headers ++ [(name,value)]

/-- `strcasecmp` against a lower-case text. -/
def sameIgnoringCase (s text : Bytes) : Bool :=
  s.map (fun c => if 65 ≤ c && c ≤ 90 then c + 32 else c) = text

def parseHeaderCb (headers : Properties) (item : Bytes × Bytes) : Properties :=
  if sameIgnoringCase item.1 (ascii "content-type") ∧ findText (ascii "charset=") item.2 = none then
    (insertNew headers (ascii "Content-Type") item.2).map (fun it =>
      if it.1 = ascii "Content-Type" then (it.1,it.2 ++ ascii "; charset=utf-8") else it)
  else insertNew headers item.1 item.2

def getCyFromResponse (headers : Properties) : ResponseType :=
  match (propertyOf headers (ascii "content-type")).or (propertyOf headers (ascii "Content-Type")) with
  | none => .txt
  | some contentType =>
    if contentType.takeWhile (· ≠ 59) = ascii "application/json" then .json else .txt

def responseType (requested : ResponseType) (headers : Properties) : ResponseType :=
  if requested = .none then getCyFromResponse (headers.foldl parseHeaderCb []) else requested

def mapCurlToCustomError (code : ℤ) : ℤ :=
  if code ∈ [2,27,23] then 200
  else if code ∈ [43,48,49] then 202
  else if code = 28 then 204
  else if code ∈ [26,56,55] then 300
  else 200

namespace Host

variable {J : Type} (H : Host J)

def longMin : ℤ := -2 ^ (H.width - 1)

def longMax : ℤ := 2 ^ (H.width - 1) - 1

/-- `strtol` to the base 10. -/
def strtol (s : Bytes) : ℤ :=
  let value :=
    match s.dropWhile isSpace with
    | 45 :: s => -digitsValue s
    | 43 :: s => digitsValue s
    | s => digitsValue s
  max H.longMin (min value H.longMax)

def bodySize (response : Response) : Option ℕ :=
  let size := (response.body.map List.length).getD 0
  match response.headers with
  | none => some size
  | some headers =>
    let content_length := findText (ascii "Content-Length: ") headers.bytes
    let content_encoding := findText (ascii "Content-Encoding: ") headers.bytes
    match content_length,content_encoding with
    | some content_length,none =>
      let len := H.strtol (content_length.drop 16)
      if len ≠ H.longMin ∧ len ≠ H.longMax then some (sizeT (2 ^ H.width) len) else some size
    | _,_ =>
      match response.body with
      | none => some 0
      | some body => strlen body

def printed : Option Bytes → Option (Option Bytes)
  | none => some none
  | some body => (strlen body).map (fun length => some (body.take length))

def logged (on : Bool) (body : Option Bytes) : Option Unit :=
  if on then (printed body).map (fun _ => ()) else some ()

def relativePath (path : Bytes) : Option Bytes :=
  (H.paths.appAbsoluteToRelativePath H.pkg (path.map (fun c => Char.ofNat c.toNat))).map
    (fun text => text.map (fun c => UInt8.ofNat c.toNat))

def textData (size : ℕ) (body : Bytes) : Option Bytes := do
  let last ← readByte body ((size : ℤ) - 1)
  if last = 0 then return cstr body else return cstr (body.take size ++ [0])

def parsed (text : Bytes) : Data J :=
  match H.parseJson text with
  | some value => .json value
  | none => .undefined

/-- `ft_from_string`. -/
def fromString (text : Bytes) : String :=
  if h : IsUtf8 text then .ofByteArray ⟨text.toArray⟩ h else H.newString text

/-- `get_response_data`. A download asked for a file, and the body is then the path it was stored at. -/
def getResponseData (requested type : ResponseType) (size : ℕ) (body : Option Bytes) : Option (Data J) :=
  match body with
  | none => some (.text "")
  | some body =>
    if type = .json then
      -- The parser of the engine reads the byte behind its text, which must be a terminator.
      if body[size]? = some 0 then some (H.parsed (body.take size)) else none
    else if requested = .file then do
      let length ← strlen body
      -- `assert(path)`; the relative path is a string with its terminator.
      let path ← H.relativePath (body.take length)
      return .text (H.fromString path)
    else (textData size body).map (fun text => .text (H.fromString text))

def settle (code : ℤ) (headers : Properties) (data : Data J) : Settlement J :=
  match data with
  | .undefined => .reject 300 (some (ascii "responseType dosen't match response data"))
  | data => .resolve code headers data

/-- `fetch_request_cb`: none when it reads a byte that was not delivered or a string that is not there. -/
def fetchRequestCb (requested : ResponseType) (detached : Bool) (response : Response) : Option (Settlement J) :=
  if detached then some .unsettled
  else do
    let size ← H.bodySize response
    logged H.logDebug response.body
    match response.state with
    | .done =>
      let headers ← response.headers
      logged (response.httpcode ≥ 400 && H.logError) response.body
      let ft_header ← formHeaders headers.block
      let data ← H.getResponseData requested (responseType requested ft_header) size response.body
      return settle (toInt response.httpcode) ft_header data
    | .cancel => return .unsettled
    | .error =>
      let msg ← printed response.body
      return .reject (if H.libCurl then mapCurlToCustomError response.httpcode else 200) msg

/-! What the script is to get, and when it does. -/

def IsData (requested type : ResponseType) (body : Option Bytes) (data : Data J) : Prop :=
  match body with
  | none => data = .text ""
  | some body =>
    if type = .json then data = H.parsed body
    else if requested = .file then
      ∃ path string, H.relativePath (cstr body) = some path ∧ data = .text string ∧ utf8 string = path
    else ∃ string, data = .text string ∧ utf8 string = body

def headerObject (headers : CText) : Properties := applied (fields headers.bytes) []

def Delivers (requested : ResponseType) (detached : Bool) (response : Response) : Prop :=
  ∃ out, H.fetchRequestCb requested detached response = some out ∧
    (detached = false → response.state = .done → ∃ headers data, response.headers = some headers ∧
      H.IsData requested (responseType requested (headerObject headers)) response.body data ∧
      out = settle (toInt response.httpcode) (headerObject headers) data)

def Terminated (body : Option Bytes) : Prop := ∀ bytes ∈ body, 0 ∈ bytes

/-- The size that the headers declare: the number behind the first `Content-Length: ` when there is no
`Content-Encoding: `, or the number of delivered bytes when that one is out of the range of `long`. -/
def declaredSize (headers : CText) (delivered : ℕ) : Option ℕ :=
  match findText (ascii "Content-Length: ") headers.bytes,
      findText (ascii "Content-Encoding: ") headers.bytes with
  | some text,none =>
    let len := H.strtol (text.drop 16)
    some (if len ≠ H.longMin ∧ len ≠ H.longMax then sizeT (2 ^ H.width) len else delivered)
  | _,_ => none

/-- What is copied of the body ends inside a character, and what the engine puts there makes it the body again. -/
def Mended (size : ℕ) (body : Bytes) : Prop :=
  ∃ text, textData size body = some text ∧ ¬ IsUtf8 text ∧ utf8 (H.newString text) = body

/-- The declared size is that of the delivered text, which is UTF-8 without a terminator; of JSON it is enough that the
declared part, or else what comes before a terminator, has a terminator behind it and parses to the same; a path has a
terminator and is UTF-8. -/
def DataMeets (requested type : ResponseType) (declared : Option ℕ) (body : Option Bytes) : Prop :=
  match body with
  | none => True
  | some body =>
    if type = .json then
      match declared with
      | some size => body[size]? = some 0 ∧ H.parsed (body.take size) = H.parsed body
      | none => 0 ∈ body ∧ H.parsed (cstr body) = H.parsed body
    else if requested = .file then 0 ∈ body ∧ ∃ path, H.relativePath (cstr body) = some path ∧ IsUtf8 path
    else (body ≠ [] ∧ 0 ∉ body ∧ IsUtf8 body ∧ declared = some body.length) ∨
      ∃ size, declared.or (strlen body) = some size ∧ H.Mended size body

def Meets (requested : ResponseType) (detached : Bool) (response : Response) : Prop :=
  detached = true ∨ ((∀ headers ∈ response.headers, (H.declaredSize headers 0).isSome ∨ Terminated response.body) ∧
      (H.logDebug = true → Terminated response.body) ∧
      match response.state with
      | .cancel => True
      | .error => Terminated response.body
      | .done => ∃ headers, response.headers = some headers ∧
          (400 ≤ response.httpcode ∧ H.logError = true → Terminated response.body) ∧
          H.DataMeets requested (responseType requested (headerObject headers))
            (H.declaredSize headers ((response.body.map List.length).getD 0)) response.body)

variable {H} {requested type : ResponseType}

theorem printed_eq_none_iff (body : Option Bytes) : printed body = none ↔ ¬ Terminated body := by
  cases body with
  | none => simp [printed,Terminated]
  | some body =>
    by_cases h0 : 0 ∈ body
    · simp [printed,Terminated,strlen_of_mem h0,h0]
    · simp [printed,Terminated,strlen_of_notMem h0,h0]

theorem terminated_of_printed {body : Option Bytes} {out : Option Bytes} (h : printed body = some out) :
    Terminated body := by
  by_contra hnot
  rw [(printed_eq_none_iff body).mpr hnot] at h
  exact absurd h nofun

theorem logged_eq_some_iff (on : Bool) (body : Option Bytes) (u : Unit) :
    logged on body = some u ↔ (on = true → Terminated body) := by
  cases on with
  | false => simp [logged]
  | true =>
    have hprinted := printed_eq_none_iff body
    cases hp : printed body with
    | none => simp [logged,hp,hprinted.mp hp]
    | some out => simp [logged,hp,terminated_of_printed hp]

theorem take_length_cstr (body : Bytes) : body.take (cstr body).length = cstr body :=
  (List.prefix_iff_eq_take.mp (cstr_isPrefixOf body)).symm

variable {response : Response}

theorem bodySize_eq {headers : CText} (h : response.headers = some headers) : H.bodySize response =
      match H.declaredSize headers ((response.body.map List.length).getD 0) with
      | some size => some size
      | none => (match response.body with
        | none => some 0
        | some body => strlen body) := by
  simp only [bodySize,h,declaredSize]
  cases findText (ascii "Content-Length: ") headers.bytes with
  | none => rfl
  | some text =>
    cases findText (ascii "Content-Encoding: ") headers.bytes with
    | none =>
      dsimp only
      split_ifs <;> rfl
    | some _ => rfl

theorem isSome_declaredSize (headers : CText) (n m : ℕ) :
    (H.declaredSize headers n).isSome = (H.declaredSize headers m).isSome := by
  simp only [declaredSize]
  cases findText (ascii "Content-Length: ") headers.bytes with
  | none => rfl
  | some text => cases findText (ascii "Content-Encoding: ") headers.bytes <;> rfl

/-- A text is delivered when it is copied whole and has no terminator. -/
theorem textData_eq_some_iff (size : ℕ) (body : Bytes) :
    textData size body = some body ↔ body ≠ [] ∧ 0 ∉ body ∧ size = body.length := by
  constructor
  · intro h
    obtain ⟨last,hread,hdata⟩ := Option.bind_eq_some_iff.mp h
    simp only [readByte] at hread
    split_ifs at hread with hsize
    obtain ⟨hlt,hlast⟩ := List.getElem?_eq_some_iff.mp hread
    have hmem : last ∈ body := hlast ▸ List.getElem_mem hlt
    have hne : body ≠ [] := fun hnil => by simp [hnil] at hmem
    split_ifs at hdata with hzero
    · have hnot := notMem_cstr body
      rw [Option.some.inj hdata] at hnot
      exact absurd (hzero ▸ hmem) hnot
    · have hcstr : cstr (body.take size ++ [0]) = body := Option.some.inj hdata
      have hnot := notMem_cstr (body.take size ++ [0])
      have hprefix := (cstr_concat_isPrefixOf (body.take size)).length_le
      rw [hcstr] at hnot hprefix
      rw [List.length_take] at hprefix
      exact ⟨hne,hnot,by omega⟩
  · rintro ⟨hne,hnot,rfl⟩
    obtain ⟨w,x,rfl⟩ := (List.eq_nil_or_concat body).resolve_left hne
    rw [List.concat_eq_append] at hnot ⊢
    have hindex : (((w ++ [x]).length : ℕ) : ℤ) - 1 = w.length := by simp
    have hx : x ≠ 0 := fun h0 => hnot (by simp [h0])
    simp only [textData,hindex,readByte_append,Option.bind_eq_bind,Option.bind_some,if_neg hx,List.take_length]
    rw [CText.cstr_append hnot]
    rfl

theorem fromString_of_isUtf8 {text : Bytes} (h : IsUtf8 text) : utf8 (H.fromString text) = text := by
  rw [fromString,dif_pos h]
  rfl

theorem utf8_fromString_iff (text : Bytes) : utf8 (H.fromString text) = text ↔ IsUtf8 text := by
  refine ⟨fun h => ?_,fromString_of_isUtf8⟩
  rw [← h]
  exact isUtf8_utf8 _

/-- The string of the script has the bytes of the body. -/
theorem fromString_textData_iff (size : ℕ) (body : Bytes) :
    (∃ text, textData size body = some text ∧ utf8 (H.fromString text) = body) ↔
      (body ≠ [] ∧ 0 ∉ body ∧ IsUtf8 body ∧ size = body.length) ∨ H.Mended size body := by
  constructor
  · rintro ⟨text,htext,hbody⟩
    by_cases hutf8 : IsUtf8 text
    · rw [fromString_of_isUtf8 hutf8] at hbody
      subst hbody
      obtain ⟨hne,hnot,hsize⟩ := (textData_eq_some_iff size text).mp htext
      exact .inl ⟨hne,hnot,hutf8,hsize⟩
    · rw [fromString,dif_neg hutf8] at hbody
      exact .inr ⟨text,htext,hutf8,hbody⟩
  · rintro (⟨hne,hnot,hutf8,hsize⟩ | ⟨text,htext,hutf8,hbody⟩)
    · exact ⟨body,(textData_eq_some_iff size body).mpr ⟨hne,hnot,hsize⟩,fromString_of_isUtf8 hutf8⟩
    · refine ⟨text,htext,?_⟩
      rw [fromString,dif_neg hutf8]
      exact hbody

/-- With the size at hand, the right data is delivered exactly when it fits. -/
theorem getResponseData_delivers_iff (size : ℕ) (body : Option Bytes) :
    (∃ data, H.getResponseData requested type size body = some data ∧
      H.IsData requested type body data) ↔ H.DataMeets requested type (some size) body := by
  cases body with
  | none => exact iff_of_true ⟨_,rfl,rfl⟩ trivial
  | some body =>
    simp only [getResponseData,IsData,DataMeets]
    by_cases hjson : type = .json
    · simp only [if_pos hjson]
      constructor
      · rintro ⟨data,hdata,rfl⟩
        split_ifs at hdata with hzero
        exact ⟨hzero,Option.some.inj hdata⟩
      · rintro ⟨hzero,hparsed⟩
        exact ⟨_,if_pos hzero,hparsed⟩
    · simp only [if_neg hjson]
      by_cases hfile : requested = .file
      · simp only [if_pos hfile]
        by_cases h0 : 0 ∈ body
        · simp only [strlen_of_mem h0,take_length_cstr,Option.bind_eq_bind,Option.bind_some,h0,true_and]
          cases H.relativePath (cstr body) with
          | none => simp
          | some path => simpa [eq_comm] using utf8_fromString_iff (H := H) path
        · simp [strlen_of_notMem h0,h0]
      · simp only [if_neg hfile,Option.map_eq_some_iff,Option.some.injEq,Option.some_or,exists_eq_left']
        rw [← fromString_textData_iff]
        constructor
        · rintro ⟨data,⟨text,htext,rfl⟩,string,hdata,hbody⟩
          rw [← Data.text.inj hdata] at hbody
          exact ⟨text,htext,hbody⟩
        · rintro ⟨text,htext,hbody⟩
          exact ⟨_,⟨text,htext,rfl⟩,_,rfl,hbody⟩

theorem dataMeets_none_iff {body : Bytes} (h0 : 0 ∈ body) : H.DataMeets requested type none (some body) ↔
      H.DataMeets requested type (some (cstr body).length) (some body) := by
  have hzero := getElem?_cstr h0
  simp only [DataMeets,take_length_cstr,h0,true_and,hzero,not_true,false_and,and_false,false_or,Option.none_or,
    Option.some_or,strlen_of_mem h0]

theorem not_dataMeets_none {body : Bytes} (h0 : 0 ∉ body) : ¬ H.DataMeets requested type none (some body) := by
  simp only [DataMeets]
  split_ifs
  · exact fun h => h0 h.1
  · exact fun h => h0 h.1
  · simp [strlen_of_notMem h0]

theorem sized_delivers_iff {headers : CText} (h : response.headers = some headers) :
    (∃ size, H.bodySize response = some size ∧ ∃ data,
      H.getResponseData requested type size response.body = some data ∧ H.IsData requested type response.body data) ↔
      H.DataMeets requested type (H.declaredSize headers ((response.body.map List.length).getD 0)) response.body := by
  simp only [getResponseData_delivers_iff,bodySize_eq h]
  cases H.declaredSize headers ((response.body.map List.length).getD 0) with
  | some size => simp
  | none =>
    cases response.body with
    | none => simp [DataMeets]
    | some body =>
      by_cases h0 : 0 ∈ body
      · simp [strlen_of_mem h0,dataMeets_none_iff h0]
      · simp [strlen_of_notMem h0,not_dataMeets_none h0]

/-- The size is found when the headers declare one or the body has a terminator. -/
theorem isSome_bodySize_iff (response : Response) : (∃ size, H.bodySize response = some size) ↔
      ∀ headers ∈ response.headers, (H.declaredSize headers 0).isSome ∨ Terminated response.body := by
  cases hheaders : response.headers with
  | none => simp [bodySize,hheaders]
  | some headers =>
    rw [bodySize_eq hheaders]
    simp only [Option.mem_def,Option.some.injEq,forall_eq']
    rw [isSome_declaredSize headers 0 ((response.body.map List.length).getD 0)]
    cases H.declaredSize headers ((response.body.map List.length).getD 0) with
    | some size => simp
    | none =>
      cases response.body with
      | none => simp [Terminated]
      | some body =>
        by_cases h0 : 0 ∈ body
        · simp [strlen_of_mem h0,Terminated,h0]
        · simp [strlen_of_notMem h0,Terminated,h0]

theorem started_iff {β : Type} (response : Response) (rest : ℕ → Option β) (out : β) :
    (do let size ← H.bodySize response
        logged H.logDebug response.body
        rest size) = some out ↔
      (∃ size, H.bodySize response = some size ∧ rest size = some out) ∧
        (H.logDebug = true → Terminated response.body) := by
  rw [← logged_eq_some_iff _ _ ()]
  cases H.bodySize response with
  | none => simp
  | some size =>
    cases logged H.logDebug response.body with
    | none => simp
    | some u => simp

/-- A response that is done settles the promise after a line of the log about a bad status. -/
theorem done_iff (hstate : response.state = .done) (out : Settlement J) :
    H.fetchRequestCb requested false response = some out ↔ ∃ headers, response.headers = some headers ∧
        (∃ size, H.bodySize response = some size ∧ ∃ data,
          H.getResponseData requested (responseType requested (headerObject headers)) size response.body = some data ∧
          out = settle (toInt response.httpcode) (headerObject headers) data) ∧
        (H.logDebug = true → Terminated response.body) ∧
        (400 ≤ response.httpcode ∧ H.logError = true → Terminated response.body) := by
  rw [fetchRequestCb,if_neg Bool.false_ne_true,started_iff]
  simp only [hstate]
  cases response.headers with
  | none => simp
  | some headers =>
    have hlogged := logged_eq_some_iff (response.httpcode ≥ 400 && H.logError) response.body ()
    simp only [Bool.and_eq_true,decide_eq_true_eq,ge_iff_le] at hlogged
    simp only [formHeaders_block,Option.bind_eq_bind,Option.bind_some,Option.some.injEq,exists_eq_left',← hlogged]
    cases logged (response.httpcode ≥ 400 && H.logError) response.body with
    | none => simp
    | some u =>
      simp only [Option.bind_some,Option.bind_eq_some_iff,pure,Option.some.injEq,headerObject]
      constructor
      · rintro ⟨⟨size,hsize,data,hdata,rfl⟩,hdebug⟩
        exact ⟨⟨size,hsize,data,hdata,rfl⟩,hdebug,trivial⟩
      · rintro ⟨⟨size,hsize,data,hdata,rfl⟩,hdebug,-⟩
        exact ⟨⟨size,hsize,data,hdata,rfl⟩,hdebug⟩

theorem settle_inj {code : ℤ} {headers : Properties} {d d' : Data J}
    (h : settle code headers d = settle code headers d') : d = d' := by
  cases d <;> cases d' <;> simp_all [settle]

/-- For every host and every response: only delivered bytes of the body are read and the promise is settled
with the delivered data exactly when the response meets the condition. -/
theorem delivers_response_iff (H : Host J) (requested : ResponseType) (detached : Bool) (response : Response) :
    H.Delivers requested detached response ↔ H.Meets requested detached response := by
  cases detached with
  | true => exact iff_of_true ⟨.unsettled,rfl,nofun⟩ (.inl rfl)
  | false =>
    simp only [Delivers,Meets,Bool.false_eq_true,false_or,true_imp_iff]
    rw [← isSome_bodySize_iff]
    cases hstate : response.state with
    | cancel =>
      simp only [fetchRequestCb,Bool.false_eq_true,if_false,started_iff,hstate]
      simp
    | error =>
      simp only [fetchRequestCb,Bool.false_eq_true,if_false,started_iff,hstate]
      have hprinted := printed_eq_none_iff response.body
      cases hp : printed response.body with
      | none => simp [hprinted.mp hp]
      | some msg => simp [terminated_of_printed hp]
    | done =>
      simp only [done_iff hstate,true_imp_iff]
      constructor
      · rintro ⟨out,⟨headers,hheaders,⟨size,hsize,data,hdata,rfl⟩,hdebug,herror⟩,
          headers',data',hheaders',hright,hout⟩
        obtain rfl : headers = headers' := Option.some.inj (hheaders.symm.trans hheaders')
        obtain rfl := settle_inj hout
        exact ⟨⟨size,hsize⟩,hdebug,headers,hheaders,herror,
          (sized_delivers_iff hheaders).mp ⟨size,hsize,data,hdata,hright⟩⟩
      · rintro ⟨-,hdebug,headers,hheaders,herror,hmeets⟩
        obtain ⟨size,hsize,data,hdata,hright⟩ := (sized_delivers_iff hheaders).mpr hmeets
        exact ⟨_,⟨headers,hheaders,⟨size,hsize,data,hdata,rfl⟩,hdebug,herror⟩,headers,data,hheaders,hright,rfl⟩

def quietHost : Host Unit where
  width := 32
  logDebug := false
  logError := false
  libCurl := true
  parseJson _ := none
  newString _ := ""
  paths := PathConfig.defaultConfig
  pkg := "com.app".toList

def redirected : Response where
  state := .done
  httpcode := 200
  headers := some ⟨ascii "HTTP/1.1 302 Found\nContent-Length: 0\n\nHTTP/1.1 200 OK\nContent-Length: 2\n",
    by decide⟩
  body := some (ascii "ok")

/-- The byte in front of the body is read. -/
theorem redirected_not_delivered :
    ¬ ∀ (H : Host Unit) (requested : ResponseType) (detached : Bool) (response : Response),
      H.Delivers requested detached response := by
  intro h
  obtain ⟨out,hout,-⟩ := h quietHost .txt false redirected
  have hfault : quietHost.fetchRequestCb .txt false redirected = none := by
    decide +kernel
  exact absurd (hfault.symm.trans hout) (by simp)

end Host

end FeatureRuntime.FetchResponse
