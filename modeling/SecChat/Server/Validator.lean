import SecChat.Server.GroupAuthority

/-!
# What the MLS validator admits

The validator compares the members of a group through a projection: it drops leaves without a user
id, sorts, and drops repetitions.  It does not compare when nobody is expected, and of the group
that joiners are handed it only compares the epoch with the group that the commit leads to.

* `GroupContext`, `GroupView`: what a public group is, beyond what the validator asks of it;
* `ValidateReq`, `validate`: the two commands of the validator;
* `Bijects`, `Exact`: the leaves are the expected people, and joiners get the same group;
* `validate_exact_iff`: the inputs on which an accepted group is exact;
* `ghost_leaf_admitted`: a leaf that belongs to nobody.
-/

namespace SecChat.GroupChange

open Py

/-! ### Groups as seen from outside -/

/-- `GroupContext` of OpenMLS. -/
structure GroupContext where
  ciphersuite : ℕ
  groupId : String
  epoch : ℕ
  treeHash : String
  confirmedTranscriptHash : String
  extensions : String
  deriving DecidableEq

/-- The tree and the context of a public group. -/
structure GroupView (S T : Type) where
  defaultCiphersuite : ℕ
  tree : S → T
  context : S → GroupContext

/-- The calls of the validator read the context, and the checks of OpenMLS tie the tree to the hash
in the context. -/
structure GroupView.Lawful {S T : Type} (V : GroupView S T) (M : PublicMls S) : Prop where
  suiteOk : ∀ g, M.suiteOk g = true → (V.context g).ciphersuite = V.defaultCiphersuite
  groupId : ∀ g, M.groupId g = (V.context g).groupId
  epoch : ∀ g, M.epoch g = (V.context g).epoch
  tree_of_hash : ∀ a b, (V.context a).treeHash = (V.context b).treeHash → V.tree a = V.tree b

/-- `expected_member_ids`. -/
def expectedMemberIds (ids : List ℤ) : Finset ℤ := (ids.filter (0 < ·)).toFinset

/-- A command of the validator. -/
inductive ValidateReq (S : Type)
  | groupCreate (cid : ℤ) (groupInfo ratchetTree : String) (expected : List ℤ)
  | groupCommit (cid actor : ℤ) (publicState : S) (commit groupInfo ratchetTree : String)
      (expected : List ℤ)

namespace ValidateReq

variable {S : Type}

/-- `expected_member_ids` of the request. -/
def expected : ValidateReq S → Finset ℤ
  | groupCreate _ _ _ ids | groupCommit _ _ _ _ _ _ ids => expectedMemberIds ids

/-- The group info that joiners are handed. -/
def groupInfo : ValidateReq S → String
  | groupCreate _ info _ _ | groupCommit _ _ _ _ info _ _ => info

/-- The ratchet tree that joiners are handed. -/
def ratchetTree : ValidateReq S → String
  | groupCreate _ _ tree _ | groupCommit _ _ _ _ _ tree _ => tree

/-- The group that OpenMLS makes of the request: of the commit, where there is a group already. -/
def resulting (M : PublicMls S) : ValidateReq S → Option S
  | groupCreate _ info tree _ => M.fromExternal tree info
  | groupCommit _ _ g commit _ _ _ => (M.process g commit).map Prod.snd

end ValidateReq

section Validate

variable {S T : Type} (M : PublicMls S)

/-- The two commands. -/
def validate : ValidateReq S → Except String S
  | .groupCreate cid info tree ids => M.validateGroupCreate cid info tree (expectedMemberIds ids)
  | .groupCommit cid actor g commit info tree ids =>
      M.validateGroupCommit cid actor g commit info tree (expectedMemberIds ids)

/-- The leaves are in bijection with the expected users, by the user ids in their credentials. -/
def Bijects (leaves : List Leaf) (expected : Finset ℤ) : Prop :=
  ∃ uid : Fin leaves.length → ℤ,
    (∀ i, credentialUserId (leaves.get i).credential = some (uid i)) ∧
    Function.Injective uid ∧ ∀ u, u ∈ expected ↔ ∃ i, uid i = u

/-- What an answer should mean. -/
structure Exact (V : GroupView S T) (req : ValidateReq S) (g' : S) : Prop where
  members : Bijects (M.members g') req.expected
  handedOut : ∃ e, M.fromExternal req.ratchetTree req.groupInfo = some e ∧
    V.tree e = V.tree g' ∧ V.context e = V.context g'

/-- The condition on the leaves and on what is handed out. -/
structure Distinguished (V : GroupView S T) (req : ValidateReq S) (g' : S) : Prop where
  identified : ∀ leaf ∈ M.members g', credentialUserId leaf.credential ≠ none
  distinct : (M.members g').Pairwise fun a b =>
    credentialUserId a.credential ≠ credentialUserId b.credential
  compared : req.expected = ∅ → M.members g' = []
  same : ∀ e, M.fromExternal req.ratchetTree req.groupInfo = some e →
    (V.context e).treeHash = (V.context g').treeHash ∧
    (V.context e).confirmedTranscriptHash = (V.context g').confirmedTranscriptHash ∧
    (V.context e).extensions = (V.context g').extensions

variable {M}

/-- The projection of the leaves. -/
theorem mem_memberIds {g : S} {u : ℤ} :
    u ∈ M.memberIds g ↔ ∃ leaf ∈ M.members g, credentialUserId leaf.credential = some u := by
  simp [PublicMls.memberIds, List.mem_filterMap]

/-- A projection that loses nothing is a bijection. -/
theorem bijects_iff {g : S} {expected : Finset ℤ} (h : expected ≠ ∅ → M.memberIds g = expected) :
    Bijects (M.members g) expected ↔
      (∀ leaf ∈ M.members g, credentialUserId leaf.credential ≠ none) ∧
      ((M.members g).Pairwise fun a b =>
        credentialUserId a.credential ≠ credentialUserId b.credential) ∧
      (expected = ∅ → M.members g = []) := by
  constructor
  · rintro ⟨uid, hid, hinj, hmem⟩
    refine ⟨?_, ?_, ?_⟩
    · intro leaf hleaf
      obtain ⟨i, rfl⟩ := List.get_of_mem hleaf
      rw [hid i]
      exact Option.some_ne_none _
    · rw [List.pairwise_iff_get]
      intro i j hij heq
      rw [hid i, hid j] at heq
      have hsame := hinj (Option.some.inj heq)
      exact absurd hsame hij.ne
    · intro hnone
      by_contra hne
      have hpos : 0 < (M.members g).length := List.length_pos_of_ne_nil hne
      have hin : uid ⟨0, hpos⟩ ∈ expected := (hmem _).mpr ⟨_, rfl⟩
      simp [hnone] at hin
  · rintro ⟨hid, hdistinct, hcompared⟩
    have huid : ∀ i : Fin (M.members g).length,
        ∃ u, credentialUserId ((M.members g).get i).credential = some u :=
      fun i => Option.ne_none_iff_exists'.mp (hid _ (List.get_mem _ _))
    choose uid huid using huid
    refine ⟨uid, huid, ?_, ?_⟩
    · intro i j hij
      by_contra hne
      rw [List.pairwise_iff_get] at hdistinct
      have hsame : credentialUserId ((M.members g).get i).credential =
          credentialUserId ((M.members g).get j).credential := by rw [huid i, huid j, hij]
      rcases lt_or_gt_of_ne hne with hlt | hlt
      · exact hdistinct i j hlt hsame
      · exact hdistinct j i hlt hsame.symm
    · intro u
      by_cases hempty : expected = ∅
      · -- nothing was compared, and there is nobody
        have hnil := hcompared hempty
        constructor
        · intro hu
          simp [hempty] at hu
        · rintro ⟨i, -⟩
          exact absurd i.isLt (by simp [hnil])
      · rw [← h hempty, mem_memberIds]
        constructor
        · rintro ⟨leaf, hleaf, hu⟩
          obtain ⟨i, rfl⟩ := List.get_of_mem hleaf
          rw [huid i] at hu
          exact ⟨i, Option.some.inj hu⟩
        · rintro ⟨i, rfl⟩
          exact ⟨_, List.get_mem _ _, huid i⟩

/-! ### What an answer says -/

theorem common_cases {g : S} {cid : ℤ} {expected : Finset ℤ}
    (h : M.validatePublicGroupCommon g cid expected = .ok ()) :
    M.suiteOk g = true ∧ M.groupId g = PublicMls.groupIdFor cid := by
  unfold PublicMls.validatePublicGroupCommon at h
  by_cases hsuite : M.suiteOk g = false
  · simp [hsuite, throw, throwThe, MonadExceptOf.throw] at h
  · by_cases hid : M.groupId g = PublicMls.groupIdFor cid
    · exact ⟨by simpa using hsuite, hid⟩
    · simp [hsuite, hid, throw, throwThe, MonadExceptOf.throw] at h

/-- The group that is handed out was read back and checked. -/
theorem external_cases {cid : ℤ} {info tree : String} {expected : Finset ℤ} {e : S}
    (h : M.validateExternalGroupInfo cid info tree expected = .ok e) :
    M.fromExternal tree info = some e ∧ M.validatePublicGroupCommon e cid expected = .ok () := by
  unfold PublicMls.validateExternalGroupInfo at h
  split at h
  · cases h
  · next g hext =>
    obtain ⟨⟨⟩, hcommon, hret⟩ := bind_eq_ok_iff.mp h
    obtain rfl := Except.ok.inj hret
    exact ⟨hext, hcommon⟩

/-- Everything that an answer of either command says. -/
theorem validate_cases {req : ValidateReq S} {g' : S} (h : validate M req = .ok g') :
    req.resulting M = some g' ∧ (req.expected ≠ ∅ → M.memberIds g' = req.expected) ∧
    M.suiteOk g' = true ∧
    ∃ e, M.fromExternal req.ratchetTree req.groupInfo = some e ∧ M.suiteOk e = true ∧
      M.groupId e = M.groupId g' ∧ M.epoch e = M.epoch g' := by
  cases req with
  | groupCreate cid info tree ids =>
    obtain ⟨hext, hcommon⟩ := external_cases h
    obtain ⟨hsuite, -⟩ := common_cases hcommon
    exact ⟨hext, memberIds_of_common hcommon, hsuite, g', hext, hsuite, rfl, rfl⟩
  | groupCommit cid actor g commit info tree ids =>
    obtain ⟨⟨author, hprocess⟩, hmembers⟩ := validateGroupCommit_cases h
    have hresult : ValidateReq.resulting M (.groupCommit cid actor g commit info tree ids) =
        some g' := by
      simp [ValidateReq.resulting, hprocess]
    refine ⟨hresult, hmembers, ?_⟩
    unfold validate PublicMls.validateGroupCommit at h
    obtain ⟨-, -, h⟩ := bind_eq_ok_iff.mp h
    simp only [hprocess] at h
    split at h
    · cases h
    · obtain ⟨⟨⟩, hcommon, h⟩ := bind_eq_ok_iff.mp h
      obtain ⟨e, hexternal, h⟩ := bind_eq_ok_iff.mp h
      obtain ⟨hsuite, hid⟩ := common_cases hcommon
      obtain ⟨hext, hcommon'⟩ := external_cases hexternal
      obtain ⟨hsuite', hid'⟩ := common_cases hcommon'
      split at h
      · cases h
      · next hepoch =>
        exact ⟨hsuite, e, hext, hsuite', hid'.trans hid.symm, not_ne_iff.mp hepoch⟩

/-- **What the validator admits is exact** if and only if, in the group that OpenMLS makes of the
request, every leaf names a user and no two name the same, somebody was expected, and the group info
agrees in what the validator does not compare. -/
theorem validate_exact_iff (M : PublicMls S) (V : GroupView S T) (hV : V.Lawful M)
    (req : ValidateReq S) (g' : S) (h : validate M req = .ok g') :
    Exact M V req g' ↔ ∀ g, req.resulting M = some g → Distinguished M V req g := by
  obtain ⟨hresult, hmembers, hsuite, e, hext, hsuite', hid, hepoch⟩ := validate_cases h
  have hleaves := bijects_iff hmembers
  constructor
  · rintro ⟨hbij, e', hext', -, hcontext⟩ g hg
    obtain rfl := Option.some.inj (hresult.symm.trans hg)
    obtain ⟨hidentified, hdistinct, hcompared⟩ := hleaves.mp hbij
    refine ⟨hidentified, hdistinct, hcompared, fun e₁ he₁ => ?_⟩
    obtain rfl := Option.some.inj (hext'.symm.trans he₁)
    rw [hcontext]
    exact ⟨rfl, rfl, rfl⟩
  · intro hdist
    obtain ⟨hidentified, hdistinct, hcompared, hsame⟩ := hdist g' hresult
    obtain ⟨htree, htranscript, hextensions⟩ := hsame e hext
    refine ⟨hleaves.mpr ⟨hidentified, hdistinct, hcompared⟩, e, hext,
      hV.tree_of_hash e g' htree, ?_⟩
    -- the other parts of the context were compared
    have hcipher : (V.context e).ciphersuite = (V.context g').ciphersuite :=
      (hV.suiteOk e hsuite').trans (hV.suiteOk g' hsuite).symm
    have hgroup : (V.context e).groupId = (V.context g').groupId := by
      rw [← hV.groupId, ← hV.groupId, hid]
    have hnumber : (V.context e).epoch = (V.context g').epoch := by
      rw [← hV.epoch, ← hV.epoch, hepoch]
    calc V.context e
        = ⟨(V.context e).ciphersuite, (V.context e).groupId, (V.context e).epoch,
            (V.context e).treeHash, (V.context e).confirmedTranscriptHash,
            (V.context e).extensions⟩ := rfl
      _ = ⟨(V.context g').ciphersuite, (V.context g').groupId, (V.context g').epoch,
            (V.context g').treeHash, (V.context g').confirmedTranscriptHash,
            (V.context g').extensions⟩ := by
          rw [hcipher, hgroup, hnumber, htree, htranscript, hextensions]
      _ = V.context g' := rfl

end Validate

/-! ### A leaf of nobody -/

/-- Groups of one conversation: the epoch and the credentials in the tree. -/
def leavesMls : PublicMls (ℕ × List Bytes) where
  fromExternal tree groupInfo :=
    if groupInfo ≠ "epoch 1" then none
    else if tree = "user 1" then some (1, [userCredential 1])
    else if tree = "user 1 and a ghost" then some (1, [userCredential 1, []])
    else none
  suiteOk _ := true
  groupId _ := "secchat-group:1"
  epoch := Prod.fst
  members g := g.2.map Leaf.mk
  process _ _ := none

/-- The tree is its own hash. -/
def leavesView : GroupView (ℕ × List Bytes) String where
  defaultCiphersuite := 77
  tree g := toString g.2
  context g := ⟨77, "secchat-group:1", g.1, toString g.2, "", ""⟩

theorem leavesView_lawful : leavesView.Lawful leavesMls where
  suiteOk _ _ := rfl
  groupId _ := rfl
  epoch _ := rfl
  tree_of_hash _ _ h := h

/-- The creation of a group for user 1 alone. -/
def createAlone (tree : String) : ValidateReq (ℕ × List Bytes) :=
  .groupCreate 1 "epoch 1" tree [1]

/-- **A leaf that belongs to nobody is admitted.**  Its credential is empty, so the projection drops
it. -/
theorem ghost_leaf_admitted :
    validate leavesMls (createAlone "user 1 and a ghost") = .ok (1, [userCredential 1, []]) ∧
    ¬ Exact leavesMls leavesView (createAlone "user 1 and a ghost") (1, [userCredential 1, []]) := by
  constructor
  · decide +kernel
  · rintro ⟨⟨uid, hid, -, -⟩, -⟩
    have hghost := hid ⟨1, by decide⟩
    have hnone : credentialUserId [] = none := by decide +kernel
    simp [leavesMls, hnone] at hghost

theorem exact_of_alone :
    Exact leavesMls leavesView (createAlone "user 1") (1, [userCredential 1]) := by
  have hok : validate leavesMls (createAlone "user 1") = .ok (1, [userCredential 1]) := by
    decide +kernel
  refine (validate_exact_iff leavesMls leavesView leavesView_lawful _ _ hok).mpr ?_
  intro g hg
  have hresult : (createAlone "user 1").resulting leavesMls = some (1, [userCredential 1]) := by
    decide +kernel
  obtain rfl := Option.some.inj (hresult.symm.trans hg)
  refine ⟨?_, ?_, ?_, ?_⟩
  · intro leaf hleaf
    obtain rfl := List.mem_singleton.mp hleaf
    decide +kernel
  · exact List.pairwise_singleton _ _
  · intro h
    exact absurd h (by decide)
  · intro e he
    have hext : leavesMls.fromExternal "user 1" "epoch 1" = some (1, [userCredential 1]) := by
      decide +kernel
    obtain rfl := Option.some.inj (hext.symm.trans he)
    exact ⟨rfl, rfl, rfl⟩

end SecChat.GroupChange
