import FeatureRuntime.CipherAes

/-! The buffers of the AES calls: whether each is used within its bounds and freed once. -/
namespace FeatureRuntime

open Traced

namespace Crypto

variable (env : CryptoMemory) (uv : UvCrypto)

/-- What a value gives: it has bytes, there is memory for them, and they decode where they are encoded. -/
def takes (b : CryptoBuffer) (encoded : CryptoBuff → Bool) (value : Option CryptoValue) : Option CryptoBuff :=
  match value.bind CryptoValue.getBuff with
  | some buff =>
    if buff.bytes = [] ∨ env.allocates b = false then none
    else if encoded buff then (base64Decode uv buff.bytes buff.bytes.length).map (fun bytes => ⟨bytes,buff.isText⟩)
    else some buff
  | none => none

variable {env uv}

variable {b : CryptoBuffer} {e : CryptoStop}

theorem takeBytes_eq_ok_iff {spare : ℕ} {encoded : CryptoBuff → Bool}
    {value : Option CryptoValue} {taken : CryptoBuff} :
    (takeBytes env uv b spare encoded e value).result = .ok taken ↔ takes env uv b encoded value = some taken := by
  unfold takeBytes takes
  rw [bind_eq_ok_iff]
  simp only [demand_eq_ok_iff]
  cases hvalue : value.bind CryptoValue.getBuff with
  | none => simp
  | some buff =>
    by_cases hempty : buff.bytes = []
    · simp [bind_eq_ok_iff,require_eq_ok_iff,hempty]
    by_cases hmemory : env.allocates b = true
    · by_cases hencoded : encoded buff = true
      · simp [bind_eq_ok_iff,require_eq_ok_iff,demand_eq_ok_iff,malloc,use,hempty,hmemory,hencoded]
      · simp [bind_eq_ok_iff,require_eq_ok_iff,malloc,use,hempty,hmemory,hencoded]
    · simp [bind_eq_ok_iff,require_eq_ok_iff,malloc,hempty,hmemory]

variable {σ : CryptoBuffer → BlockState}

theorem takeBytes_ends {spare : ℕ} {encoded : CryptoBuff → Bool}
    {value : Option CryptoValue} (habsent : σ b = .absent) :
    Ends (takeBytes env uv b spare encoded e value) σ (fun _ σ' => ∃ size, σ' = Function.update σ b (.live size))
      (fun e' σ' => e' = e ∧ (σ' = σ ∨ ∃ size, σ' = Function.update σ b (.live size))) := by
  unfold takeBytes
  apply Ends.bind
  apply Ends.demand
  · intro buff _
    apply Ends.bind
    apply Ends.require
    · intro _
      apply Ends.bind
      apply malloc_ends habsent
      · intro _
        have hlive := Function.update_self b (BlockState.live (buff.bytes.length + spare)) σ
        split_ifs
        · apply Ends.bind
          apply Ends.demand
          · intro bytes hbytes
            apply Ends.bind
            have hlength := base64Decode_length uv hbytes
            apply use_ends hlive (by omega)
            exact Ends.pure ⟨_,rfl⟩
          · intro _
            exact ⟨rfl,.inr ⟨_,rfl⟩⟩
        · apply Ends.bind
          apply use_ends hlive (by omega)
          exact Ends.pure ⟨_,rfl⟩
      · intro _
        exact ⟨rfl,.inl rfl⟩
    · intro _
      exact ⟨rfl,.inl rfl⟩
  · intro _
    exact ⟨rfl,.inl rfl⟩

def Held (owned : List CryptoBuffer) (σ : CryptoBuffer → BlockState) : Prop :=
  ∀ b, σ b = .absent ∨ b ∈ owned ∧ ∃ size, σ b = .live size

theorem Held.none : Held [] (fun _ => .absent) := fun _ => .inl rfl

variable {owned : List CryptoBuffer}

theorem Held.alloc (h : Held owned σ)
    (hb : b ∈ owned) (size : ℕ) : Held owned (Function.update σ b (.live size)) := by
  intro b'
  by_cases hbb : b' = b
  · subst hbb
    exact .inr ⟨hb,size,Function.update_self ..⟩
  · rw [Function.update_of_ne hbb]
    exact h b'

theorem Held.mono {owned owned' : List CryptoBuffer} (h : Held owned σ) (hsub : owned ⊆ owned') : Held owned' σ := by
  intro b
  obtain habsent | ⟨hb,hlive⟩ := h b
  · exact .inl habsent
  · exact .inr ⟨hsub hb,hlive⟩

/-- What `parse_top_options` does before it frees. -/
def topBody (env : CryptoMemory) (uv : UvCrypto) (op : CryptoOperation) (param : CryptParam) :
    CryptoRun TopOptions := do
  let algo ← Traced.demand (parseAlgo param.algo) wrongTop
  let key ← takeBytes env uv .key 1 (fun key => algo = .aes && key.isText) wrongTop param.key
  let buff ← takeBytes env uv .buff 0 (fun buff => buff.isText && op = .decrypt) wrongTop param.data
  return ⟨algo,key.bytes,buff⟩

theorem topBody_ends (op : CryptoOperation) (param : CryptParam) :
    Ends (topBody env uv op param) (fun _ => .absent) (fun _ σ => ∃ size, σ .key = .live size)
      (fun e σ => e = wrongTop ∧ Held [.key,.buff] σ) := by
  unfold topBody
  have hnone : Held [.key,.buff] (fun _ => BlockState.absent) := Held.none.mono (by simp)
  apply Ends.bind
  apply Ends.demand
  · intro algo _
    apply Ends.bind
    apply Ends.mono (takeBytes_ends rfl)
    · rintro key _ ⟨size,rfl⟩
      have hkey := hnone.alloc (b := .key) (by simp) size
      apply Ends.bind
      apply Ends.mono (takeBytes_ends (Function.update_of_ne (by decide) ..))
      · rintro buff _ ⟨size',rfl⟩
        refine Ends.pure ⟨size,?_⟩
        rw [Function.update_of_ne (by decide)]
        exact Function.update_self ..
      · rintro _ _ ⟨rfl,rfl | ⟨size',rfl⟩⟩
        · exact ⟨rfl,hkey⟩
        · exact ⟨rfl,hkey.alloc (by simp) size'⟩
    · rintro _ _ ⟨rfl,rfl | ⟨size,rfl⟩⟩
      · exact ⟨rfl,hnone⟩
      · exact ⟨rfl,hnone.alloc (by simp) size⟩
  · intro _
    exact ⟨rfl,hnone⟩

variable {param : CryptParam} {op : CryptoOperation}

theorem parseTopOptions_eq_ok_iff {top : TopOptions} : (parseTopOptions env uv op param).result = .ok top ↔
      parseAlgo param.algo = some top.algo ∧
      (∃ isText, takes env uv .key (fun key => top.algo = .aes && key.isText) param.key = some ⟨top.key,isText⟩) ∧
      takes env uv .buff (fun buff => buff.isText && op = .decrypt) param.data = some top.buff := by
  change (topBody env uv op param).result = .ok top ↔ _
  unfold topBody
  simp only [bind_eq_ok_iff,demand_eq_ok_iff,takeBytes_eq_ok_iff]
  constructor
  · rintro ⟨algo,halgo,key,hkey,buff,hbuff,htop⟩
    cases htop
    exact ⟨halgo,⟨key.isText,hkey⟩,hbuff⟩
  · rintro ⟨halgo,⟨isText,hkey⟩,hbuff⟩
    exact ⟨top.algo,halgo,⟨top.key,isText⟩,hkey,top.buff,hbuff,rfl⟩

def Mild : CryptoEvent → Prop
  | .inl event => event ≠ .free .key ∧ ∀ y, event ≠ .divide y
  | .inr _ => False

theorem takeBytes_mild (b : CryptoBuffer) (spare : ℕ) (encoded : CryptoBuff → Bool) (e : CryptoStop)
    (value : Option CryptoValue) : All Mild (takeBytes env uv b spare encoded e value) := by
  unfold takeBytes
  apply All.bind (.demand _ _)
  intro buff
  apply All.bind (.require _ _)
  intro _
  apply All.bind (malloc_all (by simp [Mild]))
  intro _
  split_ifs
  · apply All.bind (.demand _ _)
    intro bytes
    apply All.bind (use_all (by simp [Mild]))
    intro _
    exact .pure _
  · apply All.bind (use_all (by simp [Mild]))
    intro _
    exact .pure _

theorem topBody_mild (op : CryptoOperation) (param : CryptParam) : All Mild (topBody env uv op param) := by
  unfold topBody
  apply All.bind (.demand _ _)
  intro algo
  apply All.bind (takeBytes_mild ..)
  intro key
  apply All.bind (takeBytes_mild ..)
  intro buff
  exact .pure _

def Spares : CryptoEvent → Prop
  | .inl event => event ≠ .free .key
  | .inr _ => False

def KeepsKey : CryptoEvent → Prop
  | .inl event => event ≠ .free .key
  | .inr action => action = .perform

def Ordinary : CryptoEvent → Prop
  | .inl (.free _) => False
  | .inl (.divide _) => False
  | .inl _ => True
  | .inr action => action = .perform

theorem Ordinary.keepsKey (event : CryptoEvent) (h : Ordinary event) : KeepsKey event := by
  cases event with
  | inl event =>
    rintro rfl
    exact h
  | inr action => exact h

theorem Mild.spares (event : CryptoEvent) (h : Mild event) : Spares event := by
  cases event with
  | inl event => exact h.1
  | inr action => exact h

theorem Spares.keepsKey (event : CryptoEvent) (h : Spares event) : KeepsKey event := by
  cases event with
  | inl event => exact h
  | inr action => exact absurd h id

theorem release_spares (h : .key ∉ owned) (events : List CryptoEvent) :
    ∀ event ∈ release owned events, Spares event := by
  intro event hevent
  obtain ⟨b,hb,rfl⟩ := List.mem_map.mp hevent
  intro hfree
  cases hfree
  exact h (List.mem_of_mem_filter hb)

theorem releaseRefused_spares {α : Type} (h : .key ∉ owned)
    (result : Except CryptoStop α) (events : List CryptoEvent) :
    ∀ event ∈ releaseRefused owned result events, Spares event := by
  unfold releaseRefused
  split
  · exact release_spares h events
  · intro event hevent
    cases hevent

theorem translate_spares (hb : b ≠ .key) (value : CryptoValue) : All Spares (translate env uv b value) := by
  unfold translate
  apply All.after
  · apply All.bind ((takeBytes_mild ..).mono Mild.spares)
    intro _
    exact .pure _
  · exact releaseRefused_spares (by simpa using hb.symm) _ _

theorem parseIv_spares (opts : MixinCryptOption) (isAuth : Bool) (key : Bytes) :
    All Spares (parseIv env uv opts isAuth key) := by
  unfold parseIv
  split
  · apply All.bind (.require _ _)
    intro _
    apply All.bind (.require _ _)
    intro _
    apply All.bind (.require _ _)
    intro _
    apply All.bind (malloc_all (by simp [Spares]))
    intro _
    apply All.bind (.demand _ _)
    intro iv
    apply All.bind (use_all (by simp [Spares]))
    intro _
    apply All.bind (.require _ _)
    intro _
    exact .pure _
  · apply All.bind (.require _ _)
    intro _
    apply All.bind (.require _ _)
    intro _
    apply All.bind (.require _ _)
    intro _
    apply All.bind (malloc_all (by simp [Spares]))
    intro _
    apply All.bind (use_all (by simp [Spares]))
    intro _
    apply All.bind (use_all (by simp [Spares]))
    intro _
    exact .pure _

theorem parseInternalOptions_spares (opts : MixinCryptOption) (isAuth : Bool) (key : Bytes) :
    All Spares (parseInternalOptions env uv opts isAuth key) := by
  unfold parseInternalOptions
  apply All.after
  · apply All.bind (parseIv_spares ..)
    intro iv
    apply All.bind (.require _ _)
    intro _
    apply All.bind (.require _ _)
    intro _
    apply All.bind
    · split
      · exact translate_spares (by decide) _
      · exact .pure _
    · intro aad
      apply All.bind (.require _ _)
      intro _
      split
      · apply All.bind (translate_spares (by decide) _)
        intro _
        exact .pure _
      · exact .pure _
  · exact releaseRefused_spares (by simp) _ _

theorem prepareAes_spares (options : Option MixinCryptOption) (key : Bytes) :
    All Spares (prepareAes env uv options key) := by
  unfold prepareAes
  split
  · apply All.bind
    · unfold chooseMode
      split
      · exact .pure _
      · apply All.bind (.demand _ _)
        intro _
        exact .pure _
      · exact .demand _ _
    · intro mode
      apply All.bind (parseInternalOptions_spares ..)
      intro _
      exact .pure _
  · apply All.bind
    · unfold keyAsIv
      apply All.bind (.require _ _)
      intro _
      apply All.bind (malloc_all (by simp [Spares]))
      intro _
      apply All.bind (use_all (by simp [Spares]))
      intro _
      apply All.bind (use_all (by simp [Spares]))
      intro _
      exact .pure _
    · intro internal
      apply All.bind (.demand _ _)
      intro _
      exact .pure _

theorem allocateOutput_spares (size keySize : ℕ) : All Spares (allocateOutput env size keySize) := by
  unfold allocateOutput
  apply All.bind (roundUp_all (by simp [Spares]))
  intro outputSize
  apply All.bind (malloc_all (by simp [Spares]))
  intro _
  apply All.bind (use_all (by simp [Spares]))
  intro _
  exact .pure _

theorem allocateOutput_eq_ok_iff {size keySize n : ℕ} : (allocateOutput env size keySize).result = .ok n ↔
      keySize ≠ 0 ∧ env.allocates .output = true ∧ n = (size + keySize - 1) / keySize * keySize := by
  unfold allocateOutput
  simp only [bind_eq_ok_iff,roundUp_eq_ok_iff,malloc_eq_ok_iff]
  constructor
  · rintro ⟨_,⟨hkey,rfl⟩,_,hmemory,_,_,h⟩
    cases h
    exact ⟨hkey,hmemory,rfl⟩
  · rintro ⟨hkey,hmemory,rfl⟩
    exact ⟨_,⟨hkey,rfl⟩,(),hmemory,(),rfl,rfl⟩

theorem perform_ordinary : All Ordinary (tell [.inr .perform] : CryptoRun Unit) := by
  apply All.tell
  simp [Ordinary]

theorem aesNonAuthCrypto_ordinary (mode : AesMode) (padding : PaddingType) (key : Bytes) (iv : IvSource)
    (ivOffset ivLen : ℤ) (owned : Bool) (buff : Bytes) (outputSize : ℕ) (op : CryptoOperation) (e : CryptoStop) :
    All Ordinary (aesNonAuthCrypto uv env mode padding key iv ivOffset ivLen owned buff outputSize op e) := by
  unfold aesNonAuthCrypto
  apply All.bind perform_ordinary
  intro _
  apply All.bind (use_all trivial)
  intro _
  apply All.bind (reach_all trivial)
  intro _
  apply All.bind (.given _ (use_all trivial))
  intro _
  apply All.bind (reach_all trivial)
  intro _
  apply All.bind (.demand _ _)
  intro output
  apply All.bind (.given _ (reach_all trivial))
  intro _
  exact .pure _

theorem aesAuthCrypto_keepsKey (mode : AesMode) (padding : PaddingType) (key iv aad tagInput : Bytes)
    (tagLen : ℕ) (buff : Bytes) (outputSize : ℕ) (op : CryptoOperation) (e : CryptoStop) :
    All KeepsKey (aesAuthCrypto uv env mode padding key iv aad tagInput tagLen buff outputSize op e) := by
  unfold aesAuthCrypto
  apply All.bind (use_all (by simp [KeepsKey]))
  intro _
  apply All.bind (use_all (by simp [KeepsKey]))
  intro _
  apply All.bind
  · apply All.given
    apply All.bind (malloc_all (by simp [KeepsKey]))
    intro _
    apply All.bind (use_all (by simp [KeepsKey]))
    intro _
    exact use_all (by simp [KeepsKey])
  intro _
  apply All.bind (perform_ordinary.mono Ordinary.keepsKey)
  intro _
  apply All.bind (use_all (by simp [KeepsKey]))
  intro _
  apply All.bind (.given _ (use_all (by simp [KeepsKey])))
  intro _
  apply All.bind (reach_all (by simp [KeepsKey]))
  intro _
  exact .demand _ _

theorem operateAes_keepsKey (op : CryptoOperation) (options : Option MixinCryptOption) (key buff : Bytes) :
    All KeepsKey (operateAes env uv op options key buff) := by
  unfold operateAes
  apply All.bind ((prepareAes_spares ..).mono Spares.keepsKey)
  intro setup
  split_ifs
  · unfold operateCcm
    apply All.bind (.require _ _)
    intro _
    apply All.bind ((allocateOutput_spares ..).mono Spares.keepsKey)
    intro outputSize
    apply All.bind (aesAuthCrypto_keepsKey ..)
    intro _
    exact .pure _
  · unfold operateBlocks
    apply All.bind ((allocateOutput_spares ..).mono Spares.keepsKey)
    intro outputSize
    apply All.bind ((aesNonAuthCrypto_ordinary ..).mono Ordinary.keepsKey)
    intro _
    exact .pure _

theorem operateRsa_keepsKey (op : CryptoOperation) (options : Option MixinCryptOption) (key buff : Bytes) :
    All KeepsKey (operateRsa env uv op options key buff) := by
  unfold operateRsa
  apply All.bind (.require _ _)
  intro _
  apply All.bind
  · unfold rsaCrypto
    apply All.bind (perform_ordinary.mono Ordinary.keepsKey)
    intro _
    apply All.bind (use_all (by simp [KeepsKey]))
    intro _
    apply All.bind (use_all (by simp [KeepsKey]))
    intro _
    apply All.bind (.demand _ _)
    intro output
    split_ifs
    · exact .pure _
    · apply All.bind (malloc_all (by simp [KeepsKey]))
      intro _
      apply All.bind (use_all (by simp [KeepsKey]))
      intro _
      exact .pure _
  · intro output
    exact .pure _

theorem encodeResult_spares (output : Bytes) (isAuth : Bool) (tagLen : ℕ) :
    All Spares (encodeResult env uv output isAuth tagLen) := by
  unfold encodeResult
  apply All.bind (malloc_all (by simp [Spares]))
  intro _
  apply All.bind (use_all (by simp [Spares]))
  intro _
  split_ifs
  · apply All.bind (.require _ _)
    intro _
    apply All.bind (.demand _ _)
    intro data
    apply All.bind (use_all (by simp [Spares]))
    intro _
    apply All.bind (malloc_all (by simp [Spares]))
    intro _
    apply All.bind (use_all (by simp [Spares]))
    intro _
    apply All.bind (.demand _ _)
    intro tag
    apply All.bind (use_all (by simp [Spares]))
    intro _
    exact .pure _
  · apply All.bind (.demand _ _)
    intro data
    apply All.bind (use_all (by simp [Spares]))
    intro _
    exact .pure _

theorem deliver_spares (op : CryptoOperation) (isText : Bool) (done : Processed) :
    All Spares (deliver env uv op isText done) := by
  unfold deliver
  split
  · exact encodeResult_spares ..
  · apply All.bind (.demand _ _)
    intro output
    apply All.bind (use_all (by simp [Spares]))
    intro _
    apply All.bind (.require _ _)
    intro _
    exact .pure _
  · split_ifs
    · apply All.bind (.require _ _)
      intro _
      exact .pure _
    · exact .pure _
  · exact .pure _

theorem memory_release (owned : List CryptoBuffer) (events : List CryptoEvent) : memory (release owned events) =
      (owned.filter (fun b => MemoryEvent.isLive b (memory events))).map .free := by
  unfold release memory
  rw [List.filterMap_map]
  exact congrFun List.filterMap_eq_map' _

theorem memory_answer (fail complete : Bool) (outcome : Option CryptoAction) (msg : String) (code : ℕ) :
    memory (answer fail complete outcome msg code) = [] := by
  unfold answer
  cases outcome <;> cases fail <;> cases complete <;> rfl

theorem safe_released (hnodup : owned.Nodup) {events : List CryptoEvent}
    (hheld : Held owned (heapAfter events (fun _ => .absent)))
    (hdivisors : ∀ y, .inl (.divide y) ∈ events → y ≠ 0) :
    MemoryEvent.Safe (memory (events ++ release owned events)) := by
  rw [memory_append,memory_release]
  apply MemoryEvent.safe_of_released hnodup
  · intro b
    obtain habsent | ⟨hb,size,hlive⟩ := hheld b
    · exact .inl habsent
    · right
      refine ⟨hb,?_⟩
      change MemoryEvent.block b (memory events) = .live size at hlive
      unfold MemoryEvent.isLive
      rw [hlive]
  · intro y hy
    obtain ⟨event,hevent,hleft⟩ := List.mem_filterMap.mp hy
    cases event with
    | inl event =>
      cases hleft
      exact hdivisors y hevent
    | inr action => cases hleft

/-- The key and the data of a call are there, are not empty and decode where they are encoded, and there is
memory for them. -/
def Accepted (env : CryptoMemory) (uv : UvCrypto) (op : CryptoOperation) (param : CryptParam) : Prop :=
  (takes env uv .key CryptoBuff.isText param.key).isSome ∧
    (takes env uv .buff (fun buff => buff.isText && op = .decrypt) param.data).isSome

theorem parseTopOptions_isOk_iff (haes : parseAlgo param.algo = some .aes) :
    (∃ top, (parseTopOptions env uv op param).result = .ok top) ↔ Accepted env uv op param := by
  simp only [parseTopOptions_eq_ok_iff,haes]
  unfold Accepted
  rw [Option.isSome_iff_exists,Option.isSome_iff_exists]
  constructor
  · rintro ⟨top,halgo,⟨isText,hkey⟩,hbuff⟩
    simp only [← Option.some.inj halgo,decide_true,Bool.true_and] at hkey
    exact ⟨⟨_,hkey⟩,⟨_,hbuff⟩⟩
  · rintro ⟨⟨key,hkey⟩,⟨buff,hbuff⟩⟩
    refine ⟨⟨.aes,key.bytes,buff⟩,rfl,⟨key.isText,?_⟩,hbuff⟩
    simp only [decide_true,Bool.true_and]
    exact hkey

theorem cleanUp_spares (options : Option MixinCryptOption) (result : Except CryptoStop Crypted)
    (events : List CryptoEvent) : ∀ event ∈ cleanUp options result events, Spares event := by
  have hoptions : ∀ event ∈ releaseOptions options events, Spares event := by
    unfold releaseOptions
    split
    · intro event hevent
      obtain hevent | hevent := List.mem_append.mp hevent
      · exact release_spares (by decide) _ _ hevent
      · split_ifs at hevent
        · exact release_spares (by decide) _ _ hevent
        · cases hevent
    · exact release_spares (by decide) _
  unfold cleanUp
  split
  · intro event hevent
    cases hevent
  · intro event hevent
    obtain hevent | hevent := List.mem_append.mp hevent
    · exact release_spares (by decide) _ _ hevent
    · exact hoptions _ hevent
  · exact hoptions

theorem afterTop_keepsKey (op : CryptoOperation) (options : Option MixinCryptOption) (top : TopOptions) :
    All KeepsKey ((operate env uv op options top).after (cleanUp options)) := by
  apply All.after
  · unfold operate
    apply All.bind
    · split
      · exact operateRsa_keepsKey ..
      · exact operateAes_keepsKey ..
    · intro done
      exact (deliver_spares ..).mono Spares.keepsKey
  · exact fun event hevent => Spares.keepsKey event (cleanUp_spares _ _ _ event hevent)

theorem report_keepsKey (param : CryptParam) (result : Except CryptoStop Crypted) :
    .inl (.free .key) ∉ report param result := by
  have hanswer (fail complete : Bool) (outcome : Option CryptoAction) (msg : String) (code : ℕ) :
      .inl (.free .key) ∉ answer fail complete outcome msg code := by
    unfold answer
    cases outcome <;> cases fail <;> cases complete <;> simp
  unfold report
  split
  · exact List.not_mem_nil
  · exact hanswer _ _ _ _ _
  · intro hevent
    obtain hevent | hevent := List.mem_append.mp hevent
    · obtain hevent | hevent := List.mem_append.mp hevent
      · exact hanswer _ _ _ _ _ hevent
      · split_ifs at hevent
        · cases List.mem_singleton.mp hevent
        · cases hevent
    · split_ifs at hevent
      · cases List.mem_singleton.mp hevent
      · cases List.mem_singleton.mp hevent
      · cases hevent

theorem crypt_of_refused (htop : (topBody env uv op param).result = .error e) :
    MemoryEvent.Safe (memory (crypt env uv op (some param))) := by
  have hends := @topBody_ends env uv op param
  unfold Ends at hends
  rw [htop] at hends
  obtain ⟨rfl,hheld⟩ := hends
  have hparse : parseTopOptions env uv op param =
      ⟨(topBody env uv op param).events ++ release [.key,.buff] (topBody env uv op param).events,
        .error wrongTop⟩ := by
    change (topBody env uv op param).after (releaseRefused [.key,.buff]) = _
    unfold after
    rw [htop]
    rfl
  have hrun : operationHandle env uv op param = ⟨(parseTopOptions env uv op param).events,.error wrongTop⟩ := by
    unfold operationHandle
    exact bind_error (by rw [hparse])
  have hreport : memory (report param (.error wrongTop)) = [] :=
    memory_answer param.fail param.complete none "wrong top options, please check arguments" argsError
  change MemoryEvent.Safe (memory ((operationHandle env uv op param).events ++ report param _))
  rw [hrun,hparse,memory_append,hreport,List.append_nil]
  apply safe_released (by decide) hheld
  intro y hy
  exact absurd rfl (((topBody_mild op param).events _ hy).2 y)

theorem crypt_of_accepted {top : TopOptions} (htop : (topBody env uv op param).result = .ok top) :
    ¬ MemoryEvent.Safe (memory (crypt env uv op (some param))) := by
  have hends := @topBody_ends env uv op param
  unfold Ends at hends
  rw [htop] at hends
  obtain ⟨size,hlive⟩ := hends
  have hparse : parseTopOptions env uv op param = ⟨(topBody env uv op param).events,.ok top⟩ := by
    change (topBody env uv op param).after (releaseRefused [.key,.buff]) = _
    unfold after
    rw [htop]
    change (⟨_ ++ [],_⟩ : CryptoRun TopOptions) = _
    rw [List.append_nil]
  have hrun : (operationHandle env uv op param).events = (topBody env uv op param).events ++
      ((operate env uv op param.options top).after (cleanUp param.options)).events := by
    unfold operationHandle
    rw [bind_ok (a := top) (by rw [hparse]),hparse]
  change ¬ MemoryEvent.Safe (memory ((operationHandle env uv op param).events ++ report param _))
  rw [hrun,List.append_assoc,memory_append]
  apply MemoryEvent.not_safe_of_kept .key
  · change MemoryEvent.block .key (memory (topBody env uv op param).events) = .live size at hlive
    unfold MemoryEvent.isLive
    rw [hlive]
  · intro hfree
    obtain ⟨event,hevent,hleft⟩ := List.mem_filterMap.mp hfree
    cases event with
    | inl event =>
      cases hleft
      obtain hevent | hevent := List.mem_append.mp hevent
      · exact (afterTop_keepsKey op param.options top).events _ hevent rfl
      · exact report_keepsKey param _ hevent
    | inr action => cases hleft

/-- An AES call of `crypto` keeps to its buffers and frees each once if and only if its key or its data is
refused: nothing frees the key past these checks. -/
theorem crypt_safe_iff (op : CryptoOperation) (haes : parseAlgo param.algo = some .aes) :
    MemoryEvent.Safe (memory (crypt env uv op (some param))) ↔ ¬ Accepted env uv op param := by
  rw [← parseTopOptions_isOk_iff haes]
  change _ ↔ ¬ ∃ top, (topBody env uv op param).result = .ok top
  cases htop : (topBody env uv op param).result with
  | error e =>
    refine iff_of_true (crypt_of_refused htop) ?_
    rintro ⟨top,hok⟩
    cases hok
  | ok top => exact iff_of_false (crypt_of_accepted htop) (fun h => h ⟨top,rfl⟩)

theorem parseTopOptions_silent (op : CryptoOperation) (param : CryptParam) (action : CryptoAction) :
    .inr action ∉ (parseTopOptions env uv op param).events := by
  intro h
  obtain h | h := List.mem_append.mp h
  · exact (topBody_mild op param).events _ h
  · unfold releaseRefused release at h
    split at h
    · obtain ⟨b,_,hb⟩ := List.mem_map.mp h
      cases hb
    · cases h

theorem operationHandle_actions (op : CryptoOperation) (param : CryptParam) {action : CryptoAction}
    (h : .inr action ∈ (operationHandle env uv op param).events) : action = .perform := by
  unfold operationHandle at h
  rw [mem_bind_iff,or_iff_right (parseTopOptions_silent op param action)] at h
  obtain ⟨top,_,h⟩ := h
  exact (afterTop_keepsKey op param.options top).events _ h

end Crypto
end FeatureRuntime
