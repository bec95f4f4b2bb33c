import Chronicle.Proofs.Pattern.Found
import Chronicle.Redaction

/-!
What the default patterns find.

A secret is a text of one of four shapes: an access key, a private key between its marks on one line, and two
kinds of keys with a prefix. The default policy looks for exactly these, anywhere in a payload, so
a payload is stored if and only if no part of it is a secret.
-/

namespace Chronicle

namespace Redaction

open Pattern

/-- What the default patterns take for a secret. -/
inductive Secret : Bytes → Prop
  | accessKey {key : Bytes} (length_eq : key.length = 16)
      (bytes : ∀ b ∈ key, Bytes.isDigit b = true ∨ ByteClass.isUpper b = true) :
      Secret (utf8 "AKIA" ++ key)
  | privateKey {between : Bytes} (one_line : ∀ b ∈ between, b ≠ 10 ∧ b ≠ 13) :
      Secret (utf8 "-----BEGIN" ++ between ++ utf8 "PRIVATE KEY-----")
  | secretKey {key : Bytes} (length_ge : 20 ≤ key.length)
      (bytes : ∀ b ∈ key, ByteClass.isAlnum b = true) : Secret (utf8 "sk-" ++ key)
  | extendedKey {key : Bytes} (length_ge : 20 ≤ key.length)
      (bytes : ∀ b ∈ key, ByteClass.isAlnum b = true) : Secret (utf8 "xprv" ++ key)

/-- Some part of a payload is a secret. -/
def HoldsSecret (payload : Bytes) : Prop := ∃ secret, Secret secret ∧ secret <:+: payload

/-! ### The default patterns -/

/-- Digits and upper case letters. -/
def keyBytes : ByteSet := ⟨[.range 48 57, .range 65 90], false⟩

/-- Letters and digits, lower case letters in front or not. -/
def tokenBytes (lowerFirst : Bool) : ByteSet :=
  ⟨if lowerFirst then [.range 97 122, .range 65 90, .range 48 57]
    else [.range 65 90, .range 97 122, .range 48 57], false⟩

def accessKeyPattern : Node :=
  .spelled (utf8 "AKIA") (.seq (.copies (.one keyBytes) .empty 16) .empty)

def privateKeyPattern : Node :=
  .spelled (utf8 "-----BEGIN")
    (.seq (.group 1 (.seq (.star 0 false (.one .any)) .empty)) (.spelled (utf8 "PRIVATE KEY-----") .empty))

/-- A mark and at least twenty letters and digits. -/
def tokenPattern (mark : Bytes) (lowerFirst : Bool) : Node :=
  .spelled mark
    (.seq (.copies (.one (tokenBytes lowerFirst)) (.star 0 true (.one (tokenBytes lowerFirst))) 20) .empty)

lemma read?_accessKey : read? (utf8 "AKIA[0-9A-Z]\x7b16\x7d") = some accessKeyPattern := by
  decide +kernel

lemma read?_privateKey : read? (utf8 "-----BEGIN(.*?)PRIVATE KEY-----") = some privateKeyPattern := by
  decide +kernel

lemma read?_secretKey :
    read? (utf8 "sk-[A-Za-z0-9]\x7b20,\x7d") = some (tokenPattern (utf8 "sk-") false) := by
  decide +kernel

lemma read?_extendedKey :
    read? (utf8 "xprv[a-zA-Z0-9]\x7b20,\x7d") = some (tokenPattern (utf8 "xprv") true) := by
  decide +kernel

/-- The policy that stores texts without default secrets. -/
def defaultPolicy : Redaction :=
  ⟨.storeText, [accessKeyPattern, privateKeyPattern, tokenPattern (utf8 "sk-") false,
    tokenPattern (utf8 "xprv") true]⟩

lemma ofSettings_default : ofSettings { mode := .storeText } = .ok defaultPolicy := by
  simp only [ofSettings, readPatterns, read?_accessKey, read?_privateKey, read?_secretKey,
    read?_extendedKey]
  rfl

/-! ### Their texts -/

variable {word : Bytes}

lemma has_keyBytes (b : UInt8) :
    keyBytes.has b = true ↔ Bytes.isDigit b = true ∨ ByteClass.isUpper b = true := by
  simp [keyBytes, ByteSet.has, has_range, Bytes.isDigit, ByteClass.isUpper]

lemma has_tokenBytes (lowerFirst : Bool) (b : UInt8) :
    (tokenBytes lowerFirst).has b = ByteClass.isAlnum b := by
  cases lowerFirst <;>
    simp [tokenBytes, ByteSet.has, has_range, ByteClass.isAlnum, ByteClass.isAlpha, ByteClass.isLower,
      ByteClass.isUpper, Bytes.isDigit, Bool.or_comm, Bool.or_left_comm, Bool.or_assoc]

lemma has_any (b : UInt8) : ByteSet.any.has b = true ↔ b ≠ 10 ∧ b ≠ 13 := by
  simp [ByteSet.any, ByteSet.has, SetItem.has]

lemma mem_accessKeyPattern : word ∈ accessKeyPattern.language ↔ ∃ key : Bytes, key.length = 16 ∧
    (∀ b ∈ key, Bytes.isDigit b = true ∨ ByteClass.isUpper b = true) ∧ word = utf8 "AKIA" ++ key := by
  rw [accessKeyPattern, Node.mem_language_spelled]
  simp only [Node.language, Node.language_copies, mul_one, mem_language_pow, has_keyBytes, and_assoc]

lemma mem_privateKeyPattern : word ∈ privateKeyPattern.language ↔ ∃ between : Bytes,
    (∀ b ∈ between, b ≠ 10 ∧ b ≠ 13) ∧
      word = utf8 "-----BEGIN" ++ between ++ utf8 "PRIVATE KEY-----" := by
  rw [privateKeyPattern, Node.mem_language_spelled]
  simp only [Node.language, mul_one, Language.mem_mul, mem_language_kstar, has_any,
    Node.mem_language_spelled, Language.mem_one]
  constructor
  · rintro ⟨_, ⟨between, hbetween, _, ⟨_, rfl, rfl⟩, rfl⟩, rfl⟩
    exact ⟨between, hbetween, by simp⟩
  · rintro ⟨between, hbetween, rfl⟩
    exact ⟨_, ⟨between, hbetween, _, ⟨[], rfl, rfl⟩, rfl⟩, by simp⟩

lemma mem_tokenPattern {mark : Bytes} {lowerFirst : Bool} :
    word ∈ (tokenPattern mark lowerFirst).language ↔ ∃ key : Bytes, 20 ≤ key.length ∧
      (∀ b ∈ key, ByteClass.isAlnum b = true) ∧ word = mark ++ key := by
  rw [tokenPattern, Node.mem_language_spelled]
  simp only [Node.language, Node.language_copies, mul_one, Language.mem_mul, mem_language_pow,
    mem_language_kstar, has_tokenBytes]
  constructor
  · rintro ⟨_, ⟨front, ⟨hlength, hfront⟩, back, hback, rfl⟩, rfl⟩
    refine ⟨front ++ back, by simp [hlength], fun b hb => ?_, rfl⟩
    exact (List.mem_append.mp hb).elim (hfront b) (hback b)
  · rintro ⟨key, hlength, hkey, rfl⟩
    refine ⟨key, ⟨key.take 20, ⟨by simp [hlength], fun b hb => ?_⟩, key.drop 20, fun b hb => ?_, ?_⟩, rfl⟩
    · exact hkey b (List.mem_of_mem_take hb)
    · exact hkey b (List.mem_of_mem_drop hb)
    · exact List.take_append_drop 20 key

lemma secret_iff : Secret word ↔ ∃ node ∈ defaultPolicy.secrets, word ∈ node.language := by
  simp only [defaultPolicy, List.exists_mem_cons_iff, List.not_mem_nil, false_and, exists_false, or_false,
    mem_accessKeyPattern, mem_privateKeyPattern, mem_tokenPattern]
  constructor
  · rintro (⟨hlength, hkey⟩ | ⟨hline⟩ | ⟨hlength, hkey⟩ | ⟨hlength, hkey⟩)
    · exact Or.inl ⟨_, hlength, hkey, rfl⟩
    · exact Or.inr (Or.inl ⟨_, hline, rfl⟩)
    · exact Or.inr (Or.inr (Or.inl ⟨_, hlength, hkey, rfl⟩))
    · exact Or.inr (Or.inr (Or.inr ⟨_, hlength, hkey, rfl⟩))
  · rintro (⟨_, hlength, hkey, rfl⟩ | ⟨_, hline, rfl⟩ | ⟨_, hlength, hkey, rfl⟩ | ⟨_, hlength, hkey, rfl⟩)
    · exact .accessKey hlength hkey
    · exact .privateKey hline
    · exact .secretKey hlength hkey
    · exact .extendedKey hlength hkey

/-! ### Payloads -/

lemma nodup_loops_of_readPatterns {patterns : List Bytes} {nodes : List Node}
    (h : readPatterns patterns = .ok nodes) : ∀ node ∈ nodes, node.loops.Nodup := by
  induction patterns generalizing nodes with
  | nil =>
    cases h
    exact fun node hnode => nomatch hnode
  | cons pattern rest ih =>
    unfold readPatterns at h
    split at h
    · cases h
    · next node hread =>
      cases hrest : readPatterns rest with
      | error bad =>
        rw [hrest] at h
        cases h
      | ok others =>
        rw [hrest] at h
        cases h
        exact List.forall_mem_cons.mpr ⟨nodup_loops_of_read? hread, ih hrest⟩

lemma nodup_loops_of_ofSettings {settings : RedactionSettings} {policy : Redaction}
    (h : ofSettings settings = .ok policy) : ∀ node ∈ policy.secrets, node.loops.Nodup := by
  unfold ofSettings at h
  cases hread : readPatterns settings.patterns with
  | error bad =>
    rw [hread] at h
    cases h
  | ok nodes =>
    rw [hread] at h
    cases h
    exact nodup_loops_of_readPatterns hread

lemma searchable : ∀ node ∈ defaultPolicy.secrets, node.Regular ∧ node.loops.Nodup :=
  have hregular : ∀ node ∈ defaultPolicy.secrets, node.Regular := by decide +kernel
  fun node hnode => ⟨hregular node hnode, nodup_loops_of_ofSettings ofSettings_default node hnode⟩

lemma containsSecret_iff (payload : Bytes) :
    defaultPolicy.containsSecret payload = true ↔ HoldsSecret payload := by
  rw [containsSecret, List.any_eq_true]
  constructor
  · rintro ⟨node, hnode, hfound⟩
    obtain ⟨regular, hloops⟩ := searchable node hnode
    obtain ⟨word, hword, hinfix⟩ := (found_iff regular hloops payload).mp hfound
    exact ⟨word, secret_iff.mpr ⟨node, hnode, hword⟩, hinfix⟩
  · rintro ⟨word, hsecret, hinfix⟩
    obtain ⟨node, hnode, hword⟩ := secret_iff.mp hsecret
    obtain ⟨regular, hloops⟩ := searchable node hnode
    exact ⟨node, hnode, (found_iff regular hloops payload).mpr ⟨word, hword, hinfix⟩⟩

/-- The marks of a private key belong together on one line only. -/
example : defaultPolicy.containsSecret (utf8 "-----BEGIN RSA\nPRIVATE KEY-----") = false := by decide +kernel

lemma content_apply {redaction : Redaction} (hmode : redaction.mode = .storeText) (payload : Bytes) :
    (redaction.apply payload).content =
      if redaction.containsSecret payload = true then none else some payload := by
  cases h : redaction.containsSecret payload <;> simp [apply, hmode, h]

lemma HoldsSecret.around {payload : Bytes} (h : HoldsSecret payload) (front back : Bytes) :
    HoldsSecret (front ++ payload ++ back) := by
  obtain ⟨secret, hsecret, hinfix⟩ := h
  exact ⟨secret, hsecret, hinfix.trans (List.infix_append front payload back)⟩

/-- **Default secrets are found, and nothing else is.** With the default patterns a policy that stores texts
keeps a payload if and only if no part of it is a secret, and then it keeps all of it; the hash is always that
of the whole payload, and no text in front of a secret or behind it keeps it from being found. -/
theorem default_patterns_exact :
    ∃ policy, ofSettings { mode := .storeText } = .ok policy ∧ ∀ payload : Bytes,
      ((policy.apply payload).content = some payload ↔ ¬ HoldsSecret payload) ∧
      ((policy.apply payload).content = none ↔ HoldsSecret payload) ∧
      ((policy.apply payload).secretDetected = true ↔ HoldsSecret payload) ∧
      (policy.apply payload).contentHash = Digest.label payload ∧
      ∀ front back, HoldsSecret payload →
        (policy.apply (front ++ payload ++ back)).secretDetected = true ∧
          (policy.apply (front ++ payload ++ back)).content = none := by
  refine ⟨defaultPolicy, ofSettings_default, fun payload => ?_⟩
  have hdetected : ∀ payload, (defaultPolicy.apply payload).secretDetected = true ↔ HoldsSecret payload :=
    containsSecret_iff
  have hdropped : ∀ payload, (defaultPolicy.apply payload).content = none ↔ HoldsSecret payload := by
    intro payload
    rw [content_apply rfl, ← containsSecret_iff]
    exact ⟨fun h => by_contra fun hnot => by simp [hnot] at h, fun h => if_pos h⟩
  refine ⟨?_, hdropped payload, hdetected payload, rfl, fun front back h => ?_⟩
  · rw [content_apply rfl, ← containsSecret_iff]
    exact ⟨fun h hsecret => by simp [hsecret] at h, fun h => if_neg h⟩
  · have haround := h.around front back
    exact ⟨(hdetected _).mpr haround, (hdropped _).mpr haround⟩

end Redaction

end Chronicle
