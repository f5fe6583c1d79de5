import SecChat.Library.CText
import SecChat.Library.Fields
import SecChat.Python.Hex

/-!
# The leaves of the identity log

Whoever uploads, rotates or publishes an identity key gets a row in `identity_key_log`.  Its leaf is the
hash of the row's fields with `|` between them, where the key is whatever text the client has sent.

* `Tm`, `utcNowString`: the time of a row;
* `LogArgs`, `leafText`, `keyAppendIdentityLog`: the code;
* `uploadKeysArgs`, `rotateIdentityArgs`, `uploadPqxdhBundleArgs`: what the requests append;
* `Leaf`: an entry that can be appended;
* `leafText_eq`: the text is not cut, and its fields stand between separators;
* `leaf_injective`: two entries with the same leaf are the same entry.
-/

namespace SecChat.IdentityLeaf

open CText Py

/-! ### Times -/

/-- A `struct tm`, with its year and month as they are printed. -/
structure Tm where
  year : ℤ
  mon : Fin 13
  mday : Fin 32
  hour : Fin 24
  min : Fin 60
  sec : Fin 61
  yearInt : -2 ^ 31 ≤ year - 1900 ∧ year - 1900 < 2 ^ 31
  deriving DecidableEq

/-- A number with two digits. -/
def two (n : ℕ) : Text := [octet (n / 10).digitChar, octet (n % 10).digitChar]

/-- What follows the year in `%Y-%m-%dT%H:%M:%SZ`. -/
def afterYear (t : Tm) : Text :=
  octet '-' :: (two t.mon ++ octet '-' :: (two t.mday ++ octet 'T' :: (two t.hour ++
    octet ':' :: (two t.min ++ octet ':' :: (two t.sec ++ [octet 'Z'])))))

/-- `utc_now_string`. -/
def utcNowString (t : Tm) : Text := dec t.year ++ afterYear t

/-! ### The code -/

/-- The arguments of `key_append_identity_log`. -/
structure LogArgs where
  uid : ℤ
  identityVersion : ℤ
  identityPk : Text
  deviceIdHash : Text
  deviceLabel : Text
  eventType : Text
  deriving DecidableEq, Repr

/-- The label that is stored. -/
def LogArgs.label (a : LogArgs) : Text :=
  if a.deviceLabel = [] then ascii "primary device" else a.deviceLabel

/-- The text that is hashed: `snprintf` into a buffer of `canon_len` octets. -/
def leafText (a : LogArgs) (now : Tm) : Text :=
  let canonLen := a.identityPk.length + a.deviceIdHash.length + a.label.length +
    a.eventType.length + 160
  (fmt "SecChatIdentityLeaf|%d|%d|%s|%s|%s|%s|%s"
    [dec a.uid, dec a.identityVersion, a.identityPk, a.deviceIdHash, a.label, a.eventType,
      utcNowString now]).take (canonLen - 1)

/-- A row of `identity_key_log`. -/
structure Row where
  userId : ℤ
  identityVersion : ℤ
  identityPk : Text
  deviceIdHash : Text
  deviceLabel : Text
  eventType : Text
  createdAt : Text
  leafHash : String
  deriving DecidableEq

/-- Arguments for which nothing is appended. -/
def LogArgs.Refused (a : LogArgs) : Prop :=
  a.uid ≤ 0 ∨ a.identityVersion < 0 ∨ a.identityPk = [] ∨ a.eventType = []

instance (a : LogArgs) : Decidable a.Refused := inferInstanceAs (Decidable (_ ∨ _ ∨ _ ∨ _))

/-- `key_append_identity_log`, up to the `INSERT IGNORE`: the row, or `none` for bad arguments. -/
def keyAppendIdentityLog (sha256 : Bytes → Bytes) (a : LogArgs) (now : Tm) : Option Row :=
  if a.Refused then none
  else
    some ⟨a.uid, a.identityVersion, a.identityPk, a.deviceIdHash, a.label, a.eventType,
      utcNowString now, hexOf (sha256 (leafText a now))⟩

/-- What `handle_upload_keys` passes on; the version comes from `key_get_identity_version`. -/
def uploadKeysArgs (myUid version : ℤ) (idPk : Text) : LogArgs :=
  ⟨myUid, if 0 ≤ version then version else 0, idPk, [], ascii "primary device", ascii "initial"⟩

/-- What `handle_rotate_identity` passes on; the version comes from `key_bump_identity_version`. -/
def rotateIdentityArgs (myUid newVersion : ℤ) (idPk : Text) : LogArgs :=
  ⟨myUid, newVersion, idPk, [], ascii "primary device", ascii "rotation"⟩

/-- What `handle_upload_pqxdh_bundle` passes on for a user without a key. -/
def uploadPqxdhBundleArgs (myUid : ℤ) (identityPk : Text) : LogArgs :=
  ⟨myUid, 0, identityPk, [], ascii "primary device", ascii "initial"⟩

/-- The calls that the requests make. -/
inductive Requested : LogArgs → Prop
  | uploadKeys (myUid version : ℤ) (idPk : Text) : Requested (uploadKeysArgs myUid version idPk)
  | rotateIdentity (myUid newVersion : ℤ) (idPk : Text) :
      Requested (rotateIdentityArgs myUid newVersion idPk)
  | uploadPqxdhBundle (myUid : ℤ) (identityPk : Text) :
      Requested (uploadPqxdhBundleArgs myUid identityPk)

/-- An entry that can be appended: a call that a request makes at some time and that is not refused. -/
structure Leaf where
  args : LogArgs
  now : Tm
  requested : Requested args
  accepted : ¬ args.Refused
  uidInt : args.uid < 2 ^ 31
  versionInt : args.identityVersion < 2 ^ 31

/-- The canonical text of an entry. -/
def Leaf.text (l : Leaf) : Text := leafText l.args l.now

/-- The leaf hash in the row of an entry. -/
def Leaf.hash (sha256 : Bytes → Bytes) (l : Leaf) : Option String :=
  (keyAppendIdentityLog sha256 l.args l.now).map Row.leafHash

/-! ### Times can be read back -/

/-- The separator. -/
def bar : UInt8 := octet '|'

theorem two_injective {n m : ℕ} (hn : n < 100) (hm : m < 100) (h : two n = two m) : n = m := by
  have hdigit : ∀ k < 10, ∀ l < 10, octet k.digitChar = octet l.digitChar → k = l := by decide
  obtain ⟨htens, hrest⟩ := List.cons.inj h
  have hones := (List.cons.inj hrest).1
  have h10 := hdigit _ (by omega) _ (by omega) htens
  have h1 := hdigit _ (by omega) _ (by omega) hones
  omega

theorem afterYear_injective {t u : Tm} (h : afterYear t = afterYear u) :
    t.mon = u.mon ∧ t.mday = u.mday ∧ t.hour = u.hour ∧ t.min = u.min ∧ t.sec = u.sec := by
  unfold afterYear at h
  obtain ⟨hmon, h⟩ := List.append_inj (List.cons.inj h).2 rfl
  obtain ⟨hmday, h⟩ := List.append_inj (List.cons.inj h).2 rfl
  obtain ⟨hhour, h⟩ := List.append_inj (List.cons.inj h).2 rfl
  obtain ⟨hmin, h⟩ := List.append_inj (List.cons.inj h).2 rfl
  obtain ⟨hsec, -⟩ := List.append_inj (List.cons.inj h).2 rfl
  exact ⟨Fin.ext (two_injective (by omega) (by omega) hmon),
    Fin.ext (two_injective (by omega) (by omega) hmday),
    Fin.ext (two_injective (by omega) (by omega) hhour),
    Fin.ext (two_injective (by omega) (by omega) hmin),
    Fin.ext (two_injective (by omega) (by omega) hsec)⟩

theorem utcNowString_injective : Function.Injective utcNowString := by
  intro t u h
  obtain ⟨hyear, hrest⟩ := List.append_inj' h rfl
  obtain ⟨hmon, hmday, hhour, hmin, hsec⟩ := afterYear_injective hrest
  have hyear := dec_injective hyear
  cases t
  cases u
  simp only [Tm.mk.injEq]
  exact ⟨hyear, hmon, hmday, hhour, hmin, hsec⟩

theorem bar_notMem_dec (n : ℤ) : bar ∉ dec n := by
  intro h
  rcases range_of_mem_dec h with h | h
  · exact absurd h (by decide)
  · exact absurd h.2 (by decide)

theorem bar_notMem_two (n : ℕ) (hn : n < 100) : bar ∉ two n := by
  have hdigit : ∀ k < 10, bar ≠ octet k.digitChar := by decide
  intro h
  rcases List.mem_cons.mp h with h | h
  · exact hdigit _ (by omega) h
  · exact hdigit _ (by omega) (List.mem_singleton.mp h)

theorem bar_notMem_utcNowString (t : Tm) : bar ∉ utcNowString t := by
  have hmon := bar_notMem_two t.mon (by omega)
  have hmday := bar_notMem_two t.mday (by omega)
  have hhour := bar_notMem_two t.hour (by omega)
  have hmin := bar_notMem_two t.min (by omega)
  have hsec := bar_notMem_two t.sec (by omega)
  have hsep : bar ≠ octet '-' ∧ bar ≠ octet 'T' ∧ bar ≠ octet ':' ∧ bar ≠ octet 'Z' := by decide
  simp [utcNowString, afterYear, bar_notMem_dec, hmon, hmday, hhour, hmin, hsec, hsep]

theorem length_utcNowString_le (t : Tm) : (utcNowString t).length ≤ 27 := by
  have hyear := length_dec_le (n := t.year) (k := 10) (by omega)
    (by have := t.yearInt.1; omega) (by have := t.yearInt.2; omega)
  rw [utcNowString, List.length_append]
  have hrest : (afterYear t).length = 16 := rfl
  omega

/-! ### The text of a leaf -/

/-- What the requests have in common. -/
theorem Requested.fields {a : LogArgs} (h : Requested a) :
    a.deviceIdHash = [] ∧ a.deviceLabel = ascii "primary device" ∧
      (a.eventType = ascii "initial" ∨ a.eventType = ascii "rotation") := by
  cases h with
  | uploadKeys => exact ⟨rfl, rfl, .inl rfl⟩
  | rotateIdentity => exact ⟨rfl, rfl, .inr rfl⟩
  | uploadPqxdhBundle => exact ⟨rfl, rfl, .inl rfl⟩

theorem Requested.label {a : LogArgs} (h : Requested a) : a.label = ascii "primary device" := by
  unfold LogArgs.label
  split
  · rfl
  · exact h.fields.2.1

/-- The format, as fields. -/
theorem leafFmt_eq (uid version pk devHash devLabel event createdAt : Text) :
    fmt "SecChatIdentityLeaf|%d|%d|%s|%s|%s|%s|%s"
        [uid, version, pk, devHash, devLabel, event, createdAt] =
      [bar].intercalate ([ascii "SecChatIdentityLeaf", uid, version] ++
        pk :: [devHash, devLabel, event, createdAt]) := by
  rw [fmt_ofList rfl]
  simp only [List.cons_append, List.nil_append, List.intercalate_cons_cons,
    List.intercalate_singleton, List.append_assoc]
  refine Eq.trans (b := ascii "SecChatIdentityLeaf" ++ bar :: (uid ++ bar :: (version ++
    bar :: (pk ++ bar :: (devHash ++ bar :: (devLabel ++ bar :: (event ++
      bar :: (createdAt ++ [])))))))) rfl ?_
  rw [List.append_nil]

theorem length_dec_of_int {n : ℤ} (hlo : 0 ≤ n) (hhi : n < 2 ^ 31) : (dec n).length ≤ 11 :=
  length_dec_le (k := 10) (by omega) (by omega) (by omega)

/-- **The text of a leaf** is not cut. -/
theorem Leaf.text_eq (l : Leaf) :
    l.text = [bar].intercalate
      ([ascii "SecChatIdentityLeaf", dec l.args.uid, dec l.args.identityVersion] ++
        l.args.identityPk :: [[], ascii "primary device", l.args.eventType, utcNowString l.now]) := by
  obtain ⟨hdev, -, -⟩ := l.requested.fields
  have hlabel := l.requested.label
  have haccepted := l.accepted
  unfold LogArgs.Refused at haccepted
  have huid := length_dec_of_int (n := l.args.uid) (by omega) l.uidInt
  have hversion := length_dec_of_int (n := l.args.identityVersion) (by omega) l.versionInt
  have hnow := length_utcNowString_le l.now
  rw [Leaf.text, leafText, List.take_of_length_le, leafFmt_eq, hdev, hlabel]
  -- the format, the two numbers and the time are shorter than the 160 octets that are added
  rw [length_fmt 26 rfl rfl (by decide)]
  simp only [List.map_cons, List.map_nil, List.sum_cons, List.sum_nil]
  omega

/-- No field but the key has a separator. -/
theorem Leaf.noBar (l : Leaf) :
    (∀ f ∈ [ascii "SecChatIdentityLeaf", dec l.args.uid, dec l.args.identityVersion], bar ∉ f) ∧
      ∀ f ∈ [[], ascii "primary device", l.args.eventType, utcNowString l.now], bar ∉ f := by
  have hevent : bar ∉ l.args.eventType := by
    rcases l.requested.fields.2.2 with h | h <;> rw [h] <;> decide
  have hleaf : bar ∉ ascii "SecChatIdentityLeaf" := by decide
  have hdevice : bar ∉ ascii "primary device" := by decide
  simp [bar_notMem_dec, bar_notMem_utcNowString, hevent, hleaf, hdevice]

theorem Leaf.text_injective : Function.Injective Leaf.text := by
  intro l k h
  rw [l.text_eq, k.text_eq] at h
  obtain ⟨hfront, hpk, hback⟩ := Fields.fields_injective l.noBar.1 k.noBar.1 l.noBar.2 k.noBar.2
    rfl rfl h
  simp only [List.cons.injEq, true_and, and_true] at hfront hback
  have huid := dec_injective hfront.1
  have hversion := dec_injective hfront.2
  have hnow := utcNowString_injective hback.2
  have hdev := l.requested.fields.1.trans k.requested.fields.1.symm
  have hlabel := l.requested.fields.2.1.trans k.requested.fields.2.1.symm
  -- the fields of the arguments, and the proofs, are the same
  have hargs : l.args = k.args := by
    obtain ⟨⟨_, _, _, _, _, _⟩, _⟩ := l
    obtain ⟨⟨_, _, _, _, _, _⟩, _⟩ := k
    simp only [LogArgs.mk.injEq]
    exact ⟨huid, hversion, hpk, hdev, hlabel, hback.1⟩
  cases l
  cases k
  simp only [Leaf.mk.injEq]
  exact ⟨hargs, hnow⟩

theorem Leaf.hash_eq (sha256 : Bytes → Bytes) (l : Leaf) :
    l.hash sha256 = some (hexOf (sha256 l.text)) := by
  rw [Leaf.hash, keyAppendIdentityLog, if_neg l.accepted]
  rfl

/-- **The leaf encoding is injective.** Entries with the same canonical text are the same, in all their
fields, and so are entries with the same leaf hash when the hash function is injective. -/
theorem leaf_injective :
    Function.Injective Leaf.text ∧
      ∀ sha256 : Bytes → Bytes, Function.Injective sha256 →
        Function.Injective (Leaf.hash sha256) := by
  refine ⟨Leaf.text_injective, fun sha256 hsha l k h => ?_⟩
  rw [l.hash_eq, k.hash_eq] at h
  exact Leaf.text_injective (hsha (hexOf_injective (Option.some.inj h)))

/-- A key with separators in it: its text would be ambiguous if the others could have them too. -/
example : (⟨⟨7, 0, ascii "k||primary device|initial", [], ascii "primary device", ascii "initial"⟩,
    ⟨2024, 1, 2, 3, 4, 5, by decide⟩, .uploadPqxdhBundle 7 _, by decide, by decide, by decide⟩ : Leaf).text =
      ascii "SecChatIdentityLeaf|7|0|k||primary device|initial||primary device|initial|2024-01-02T03:04:05Z" := by
  decide +kernel

end SecChat.IdentityLeaf
