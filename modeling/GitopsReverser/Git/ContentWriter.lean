import GitopsReverser.Types
import GitopsReverser.Git.TargetPath
import GitopsReverser.Reasoning.Accumulate

/-!
# ContentWriter — encrypted content and its cache

What was encrypted is kept under a text made of the scope, the identity and the digest of the
plaintext, and outlives the encryptor. Next to the cache stands the record of the `Encrypt` calls.
-/

namespace GitopsReverser

/-- What stands before the name in the key of a resource. -/
def ResourceIdentifier.parts (r : ResourceIdentifier) : List (List Char) :=
  [r.group.toList, r.version.toList, r.resource.toList] ++ if r.ns = "" then [] else [r.ns.toList]

/-- The names the API server admits: a slash in none of them, a colon in the object's own at most. -/
structure ResourceIdentifier.Admitted (r : ResourceIdentifier) : Prop where
  parts : ∀ part ∈ r.parts, '/' ∉ part ∧ ':' ∉ part
  name : '/' ∉ r.name.toList

end GitopsReverser

namespace GitopsReverser.Git

open Reasoning

/-! ## 1. The writer -/

structure LiveObject where
  uid : String
  resourceVersion : String
  generation : Int
  body : String
  deriving DecidableEq, Repr

structure ContentEvent where
  identifier : ResourceIdentifier
  object : Option LiveObject
  deriving DecidableEq, Repr

structure SensitiveMarker where
  uid : String := ""
  resourceVersion : String := ""
  generation : Int := 0
  deriving DecidableEq, Repr

structure ResourceMeta where
  identifier : ResourceIdentifier
  marker : SensitiveMarker
  deriving DecidableEq, Repr

def buildResourceMeta (event : ContentEvent) : ResourceMeta :=
  match event.object with
  | none => ⟨event.identifier, {}⟩
  | some o => ⟨event.identifier, ⟨o.uid, o.resourceVersion, o.generation⟩⟩

/-- Answers may differ from call to call. -/
abbrev Encryptor := Nat → String → ResourceMeta → Except String String

structure EncryptCall where
  scope : String
  identifier : ResourceIdentifier
  plain : String
  encrypted : String
  deriving DecidableEq, Repr

/-- `calls` is a specification field: the `Encrypt` calls that succeeded, newest first. -/
structure ContentWriter where
  encryptor : Option Encryptor := none
  encryptionScope : String := ""
  encryptedCache : Dict String String := ∅
  markers : Dict String SensitiveMarker := ∅
  calls : List EncryptCall := []

def setEncryptor (w : ContentWriter) (encryptor : Option Encryptor) (scope : String) : ContentWriter :=
  { w with encryptor := encryptor, encryptionScope := scope }

def scopedIdentityKey (scope : String) (id : ResourceIdentifier) : String :=
  if trimSpace scope.toList ≠ [] then scope ++ ":" ++ id.key else id.key

/-- The YAML of an object, the digest in hexadecimal digits, and which resources are sensitive. -/
structure ContentRules where
  marshal : Option LiveObject → Except String String
  digest : String → String
  isSensitive : ResourceIdentifier → Bool

variable (rules : ContentRules)

def cacheKey (scope : String) (id : ResourceIdentifier) (plain : String) : String :=
  scopedIdentityKey scope id ++ ":" ++ rules.digest plain

def cachedEncryptedContent (w : ContentWriter) (identityKey cacheKey : String)
    (currentMarker : SensitiveMarker) : Option String :=
  match w.markers.lookup identityKey with
  | none => none
  | some lastMarker => if lastMarker ≠ currentMarker then none else w.encryptedCache.lookup cacheKey

def encryptSensitiveContent (w : ContentWriter) (event : ContentEvent) (plain : String) :
    ContentWriter × Except String String :=
  let resource := buildResourceMeta event
  let identityKey := scopedIdentityKey w.encryptionScope event.identifier
  let key := cacheKey rules w.encryptionScope event.identifier plain
  match cachedEncryptedContent w identityKey key resource.marker with
  | some cached => (w, .ok cached)
  | none =>
    match w.encryptor with
    | none => (w, .error "secret encryption is required but no encryptor is configured")
    | some encrypt =>
      match encrypt w.calls.length plain resource with
      | .error err => (w, .error ("secret encryption failed: " ++ err))
      | .ok encrypted =>
        ({ w with
            encryptedCache := w.encryptedCache.insert key encrypted
            markers := w.markers.insert identityKey resource.marker
            calls := ⟨w.encryptionScope, event.identifier, plain, encrypted⟩ :: w.calls },
          .ok encrypted)

def buildContentForWrite (w : ContentWriter) (event : ContentEvent) :
    ContentWriter × Except String String :=
  match rules.marshal event.object with
  | .error err => (w, .error ("failed to marshal object to YAML: " ++ err))
  | .ok content =>
    if rules.isSensitive event.identifier then encryptSensitiveContent rules w event content
    else (w, .ok content)

inductive WriterInput where
  | setEncryptor (encryptor : Option Encryptor) (scope : String)
  | build (event : ContentEvent)

def writerStep (w : ContentWriter) : WriterInput → ContentWriter
  | .setEncryptor encryptor scope => setEncryptor w encryptor scope
  | .build event => (buildContentForWrite rules w event).1

/-! ## 2. Keys -/

/-- Scopes of blanks are no scope. -/
def cacheScope (scope : String) : String := if trimSpace scope.toList ≠ [] then scope else ""

theorem eq_of_last_separator {α : Type} {c : α} {a b a' b' : List α} (hb : c ∉ b) (hb' : c ∉ b')
    (h : a ++ c :: b = a' ++ c :: b') : a = a' ∧ b = b' := by
  rcases List.append_eq_append_iff.mp h with ⟨l, rfl, hcons⟩ | ⟨l, rfl, hcons⟩
  all_goals
    cases l with
    | nil => simpa [eq_comm] using hcons
    | cons d l =>
      obtain ⟨-, rfl⟩ := List.cons.inj hcons
      simp at hb hb'

variable {id id' : ResourceIdentifier} {scope scope' plain plain' : String}

theorem key_toList (id : ResourceIdentifier) :
    id.key.toList = ['/'].intercalate id.parts ++ '/' :: id.name.toList := by
  unfold ResourceIdentifier.key ResourceIdentifier.parts
  split_ifs <;> simp [List.intercalate, String.toList_append]

theorem notMem_parts (h : id.Admitted) : ':' ∉ ['/'].intercalate id.parts := by
  have hparts := h.parts
  unfold ResourceIdentifier.parts at hparts ⊢
  split_ifs with hns <;> simp_all [List.intercalate]

theorem identifier_eq (h : id.Admitted) (h' : id'.Admitted)
    (hparts : ['/'].intercalate id.parts = ['/'].intercalate id'.parts)
    (hname : id.name.toList = id'.name.toList) : id = id' := by
  have hne : ∀ r : ResourceIdentifier, r.parts ≠ [] := by simp [ResourceIdentifier.parts]
  have hsplit : id.parts = id'.parts := by
    rw [← List.splitOn_intercalate '/' (fun part hp => (h.parts part hp).1) (hne id), hparts,
      List.splitOn_intercalate '/' (fun part hp => (h'.parts part hp).1) (hne id')]
  obtain ⟨group, version, resource, ns, name⟩ := id
  obtain ⟨group', version', resource', ns', name'⟩ := id'
  unfold ResourceIdentifier.parts at hsplit
  split_ifs at hsplit <;> simp_all [String.toList_inj]

theorem scopedIdentityKey_inj (h : id.Admitted) (h' : id'.Admitted)
    (heq : (scopedIdentityKey scope id).toList = (scopedIdentityKey scope' id').toList) :
    cacheScope scope = cacheScope scope' ∧ id = id' := by
  have hsep : ∀ {a a' : List Char}, a ++ '/' :: id.name.toList = a' ++ '/' :: id'.name.toList →
      a = a' ∧ id.name.toList = id'.name.toList := eq_of_last_separator h.name h'.name
  have hscoped : ∀ (scope : String) (id : ResourceIdentifier), (scope ++ ":" ++ id.key).toList =
      (scope.toList ++ ':' :: ['/'].intercalate id.parts) ++ '/' :: id.name.toList := by
    simp [key_toList]
  unfold scopedIdentityKey at heq
  unfold cacheScope
  -- before the name, a colon stands behind the scope and nowhere else
  split_ifs at heq ⊢ with hscope hscope'
  · rw [hscoped, hscoped] at heq
    obtain ⟨hfront, hname⟩ := hsep heq
    obtain ⟨hsame, hparts⟩ := eq_of_last_separator (notMem_parts h) (notMem_parts h') hfront
    exact ⟨String.toList_inj.mp hsame, identifier_eq h h' hparts hname⟩
  · rw [hscoped, key_toList] at heq
    exact absurd (by simp [← (hsep heq).1]) (notMem_parts h')
  · rw [hscoped, key_toList] at heq
    exact absurd (by simp [(hsep heq).1]) (notMem_parts h)
  · rw [key_toList, key_toList] at heq
    obtain ⟨hparts, hname⟩ := hsep heq
    exact ⟨rfl, identifier_eq h h' hparts hname⟩

/-! ## 3. What is returned -/

/-- The digest is written in hexadecimal digits, and no two of the plaintexts share it. -/
structure ContentRules.Digests (rules : ContentRules) (plains : List String) : Prop where
  hex : ∀ plain, ':' ∉ (rules.digest plain).toList
  distinct : ∀ plain ∈ plains, ∀ plain' ∈ plains, rules.digest plain = rules.digest plain' →
    plain = plain'

/-- What an encryptor returns without an error is encrypted. The writer does not look, and
    `SOPSEncryptor.Encrypt` returns the output of its command as it is. -/
def Encrypts (encrypt : Encryptor) : Prop :=
  ∀ call plain resource encrypted, encrypt call plain resource = .ok encrypted →
    encrypted ≠ plain ∧ encrypted ≠ ""

structure EncryptCall.For (call : EncryptCall) (scope : String) (id : ResourceIdentifier)
    (plain : String) : Prop where
  scope : cacheScope call.scope = cacheScope scope
  identifier : call.identifier = id
  plain : call.plain = plain

def EncryptCall.key (rules : ContentRules) (call : EncryptCall) : String :=
  cacheKey rules call.scope call.identifier call.plain

/-- The call was answered by an encryptor that was installed with its scope. -/
def EncryptCall.AnsweredIn (call : EncryptCall) (inputs : List WriterInput) : Prop :=
  ∃ encrypt, .setEncryptor (some encrypt) call.scope ∈ inputs ∧
    ∃ n resource, resource.identifier = call.identifier ∧
      encrypt n call.plain resource = .ok call.encrypted

/-- An input of the run, whose plaintexts are these. -/
def WriterInput.Valid (rules : ContentRules) (plains : List String) : WriterInput → Prop
  | .setEncryptor _ _ => True
  | .build event => event.identifier.Admitted ∧
      ∀ plain, rules.marshal event.object = .ok plain → plain ∈ plains

/-- Every call was for a resource and a plaintext of the run and answered by an encryptor of the
    run, and what is cached came from a call. -/
structure CacheSound (rules : ContentRules) (plains : List String) (inputs : List WriterInput)
    (w : ContentWriter) : Prop where
  installed : ∀ encrypt ∈ w.encryptor, .setEncryptor (some encrypt) w.encryptionScope ∈ inputs
  calls : ∀ call ∈ w.calls, call.identifier.Admitted ∧ call.plain ∈ plains ∧ call.AnsweredIn inputs
  cached : ∀ key bytes, w.encryptedCache.lookup key = some bytes →
    ∃ call ∈ w.calls, call.key rules = key ∧ call.encrypted = bytes

variable {rules} {plains : List String} {inputs : List WriterInput} {w w' : ContentWriter}
  {event : ContentEvent}

theorem call_for (hdigests : rules.Digests plains) {call : EncryptCall} (hcall : call.identifier.Admitted)
    (hin : call.plain ∈ plains) (hid : id.Admitted) (hplain : plain ∈ plains)
    (hkey : call.key rules = cacheKey rules scope id plain) : call.For scope id plain := by
  have hlist := congrArg String.toList hkey
  simp only [EncryptCall.key, cacheKey, String.toList_append, List.append_assoc] at hlist
  obtain ⟨hscoped, hdigest⟩ := eq_of_last_separator (hdigests.hex _) (hdigests.hex _) hlist
  obtain ⟨hscope, hident⟩ := scopedIdentityKey_inj hcall hid hscoped
  exact ⟨hscope, hident, hdigests.distinct _ hin _ hplain (String.toList_inj.mp hdigest)⟩

/-- Encrypting returns the answer of a call for this key, an earlier one or its own. -/
theorem CacheSound.encrypted (h : CacheSound rules plains inputs w)
    (hid : event.identifier.Admitted) (hplain : plain ∈ plains) :
    CacheSound rules plains inputs (encryptSensitiveContent rules w event plain).1 ∧
      ∀ bytes, (encryptSensitiveContent rules w event plain).2 = .ok bytes →
        ∃ call ∈ (encryptSensitiveContent rules w event plain).1.calls,
          call.key rules = cacheKey rules w.encryptionScope event.identifier plain ∧
          call.encrypted = bytes := by
  fun_cases encryptSensitiveContent rules w event plain with
  | case1 resource identityKey key cached hcached =>
    have hlookup : w.encryptedCache.lookup key = some cached := by
      unfold cachedEncryptedContent at hcached
      split at hcached
      · cases hcached
      · split_ifs at hcached
        exact hcached
    exact ⟨h, fun bytes hbytes => Except.ok.inj hbytes ▸ h.cached key cached hlookup⟩
  | case2 => exact ⟨h, by simp⟩
  | case3 => exact ⟨h, by simp⟩
  | case4 resource identityKey key hmiss encrypt hencrypt encrypted hencrypted =>
    have hresource : resource.identifier = event.identifier := by
      simp only [resource, buildResourceMeta]
      split <;> rfl
    have hinstalled := h.installed encrypt hencrypt
    refine ⟨⟨h.installed, ?_, fun key' bytes hbytes => ?_⟩, fun bytes hbytes => ?_⟩
    · exact List.forall_mem_cons.mpr ⟨⟨hid, hplain, encrypt, hinstalled, _, resource, hresource,
        hencrypted⟩, h.calls⟩
    · by_cases heq : key' = key
      · subst heq
        rw [AList.lookup_insert] at hbytes
        exact ⟨_, List.mem_cons_self, rfl, Option.some.inj hbytes⟩
      · rw [AList.lookup_insert_ne heq] at hbytes
        obtain ⟨call, hcall, hkey⟩ := h.cached key' bytes hbytes
        exact ⟨call, List.mem_cons_of_mem _ hcall, hkey⟩
    · exact ⟨_, List.mem_cons_self, rfl, Except.ok.inj hbytes⟩

theorem cacheSound_run (inputs : List WriterInput) (h : ∀ input ∈ inputs, input.Valid rules plains) :
    CacheSound rules plains inputs (inputs.foldl (writerStep rules) {}) := by
  refine List.foldlRecOn inputs _ ⟨by simp, by simp, by simp⟩ (fun w hw input hinput => ?_)
  cases input with
  | setEncryptor encryptor scope =>
    refine ⟨fun encrypt hencrypt => ?_, hw.calls, hw.cached⟩
    obtain rfl : encryptor = some encrypt := hencrypt
    exact hinput
  | build event =>
    obtain ⟨hid, hplain⟩ := h _ hinput
    rw [writerStep]
    fun_cases buildContentForWrite rules w event with
    | case1 => exact hw
    | case2 content hcontent _ => exact (hw.encrypted hid (hplain content hcontent)).1
    | case3 => exact hw

/-- After any calls on a writer, what is returned for a sensitive event is the answer of an
    installed encryptor to a call for its identity and plaintext under its scope, and only such
    calls stand under its key. It is neither the plaintext nor empty as long as no installed
    encryptor answers so. -/
theorem returned_ciphertext_sound (rules : ContentRules) (plains : List String)
    (inputs : List WriterInput) (event : ContentEvent) (bytes : String)
    (hdigests : rules.Digests plains)
    (hvalid : ∀ input ∈ inputs ++ [.build event], input.Valid rules plains)
    (hsensitive : rules.isSensitive event.identifier = true) :
    let w := inputs.foldl (writerStep rules) {}
    (buildContentForWrite rules w event).2 = .ok bytes →
      ∃ plain, rules.marshal event.object = .ok plain ∧
        (∃ call ∈ (buildContentForWrite rules w event).1.calls,
          call.encrypted = bytes ∧ call.For w.encryptionScope event.identifier plain ∧
            call.AnsweredIn inputs) ∧
        (∀ call ∈ (buildContentForWrite rules w event).1.calls,
          call.key rules = cacheKey rules w.encryptionScope event.identifier plain →
            call.For w.encryptionScope event.identifier plain) ∧
        ((∀ encrypt scope, .setEncryptor (some encrypt) scope ∈ inputs → Encrypts encrypt) →
          bytes ≠ plain ∧ bytes ≠ "") := by
  intro w hbytes
  have hw : CacheSound rules plains inputs w :=
    cacheSound_run inputs (fun input hinput => hvalid input (List.mem_append_left _ hinput))
  obtain ⟨hid, hplain⟩ := hvalid (.build event) (by simp)
  unfold buildContentForWrite at hbytes ⊢
  cases hmarshal : rules.marshal event.object with
  | error err => simp [hmarshal] at hbytes
  | ok plain =>
    simp only [hmarshal, hsensitive, if_true] at hbytes ⊢
    have hin := hplain plain hmarshal
    obtain ⟨hsound, hcall⟩ := hw.encrypted hid hin
    have heach : ∀ call ∈ (encryptSensitiveContent rules w event plain).1.calls,
        call.key rules = cacheKey rules w.encryptionScope event.identifier plain →
          call.For w.encryptionScope event.identifier plain := by
      intro call hmem hkey
      obtain ⟨hadmitted, hknown, -⟩ := hsound.calls call hmem
      exact call_for hdigests hadmitted hknown hid hin hkey
    obtain ⟨call, hmem, hkey, rfl⟩ := hcall bytes hbytes
    obtain ⟨-, -, hanswered⟩ := hsound.calls call hmem
    have hown := heach call hmem hkey
    refine ⟨plain, rfl, ⟨call, hmem, rfl, hown, hanswered⟩, heach, fun hencrypts => ?_⟩
    obtain ⟨encrypt, hinstalled, n, resource, -, hanswer⟩ := hanswered
    exact hown.plain ▸ hencrypts encrypt _ hinstalled n _ resource _ hanswer

/-! One secret under two blank scopes, one that an encryptor hands back as it is, and one twice
under one scope. -/

def sealing (mark : String) : Encryptor := fun _ plain _ =>
  if plain = mark then .error "sealed already" else .ok mark

def plainRules : ContentRules where
  marshal o := .ok ((o.map LiveObject.body).getD "")
  digest _ := "00"
  isSensitive r := r.resource = "secrets"

def databaseSecret : ContentEvent := ⟨⟨"", "v1", "secrets", "prod", "db"⟩, some ⟨"u-1", "7", 1, "data"⟩⟩

def sealedUnder (scope : String) : List WriterInput :=
  [.setEncryptor (some (sealing "a")) scope, .build databaseSecret]

theorem blank_scopes_share_and_plaintext_returned :
    let w := setEncryptor ((sealedUnder "").foldl (writerStep plainRules) {}) (some (sealing "b")) " "
    let echoing := setEncryptor {} (some fun _ plain _ => .ok plain) "team"
    (buildContentForWrite plainRules w databaseSecret).2.toOption = some "a" ∧
      (∀ call ∈ (buildContentForWrite plainRules w databaseSecret).1.calls,
        call.scope ≠ w.encryptionScope) ∧
      (buildContentForWrite plainRules echoing databaseSecret).2.toOption =
        (plainRules.marshal databaseSecret.object).toOption := by
  decide +kernel

theorem sealed_secret_returned_again :
    let w := (sealedUnder "team").foldl (writerStep plainRules) {}
    (buildContentForWrite plainRules w databaseSecret).2 = .ok "a" ∧
      ∃ call ∈ (buildContentForWrite plainRules w databaseSecret).1.calls,
        call.encrypted = "a" ∧ call.For "team" databaseSecret.identifier "data" ∧
          call.AnsweredIn (sealedUnder "team") ∧ call.encrypted ≠ call.plain := by
  have hbuild : (WriterInput.build databaseSecret).Valid plainRules ["data"] :=
    ⟨⟨by decide +kernel, by decide +kernel⟩, fun plain hplain => by
      simp [← Except.ok.inj hplain, databaseSecret]⟩
  have hsealing : ∀ encrypt scope, .setEncryptor (some encrypt) scope ∈ sealedUnder "team" →
      Encrypts encrypt := by
    intro encrypt scope hinstalled call plain resource encrypted h
    simp only [sealedUnder, List.mem_cons, WriterInput.setEncryptor.injEq, Option.some.injEq,
      reduceCtorEq, List.not_mem_nil, or_false] at hinstalled
    rw [hinstalled.1, sealing] at h
    split_ifs at h with hplain
    obtain rfl := Except.ok.inj h
    exact ⟨Ne.symm hplain, by decide⟩
  have hvalid : ∀ input ∈ sealedUnder "team" ++ [.build databaseSecret],
      input.Valid plainRules ["data"] :=
    List.forall_mem_cons.mpr ⟨trivial,
      List.forall_mem_cons.mpr ⟨hbuild, List.forall_mem_singleton.mpr hbuild⟩⟩
  obtain ⟨plain, hplain, ⟨call, hcall, hbytes, hasked, hanswered⟩, -, hsealed⟩ :=
    returned_ciphertext_sound plainRules ["data"] (sealedUnder "team") databaseSecret "a"
      ⟨fun _ => by simp [plainRules], by simp⟩ hvalid rfl rfl
  obtain rfl := Except.ok.inj hplain
  exact ⟨rfl, call, hcall, hbytes, hasked, hanswered, hbytes ▸ hasked.plain ▸ (hsealed hsealing).1⟩

end GitopsReverser.Git
