import SecChat.Protocol.Primitives

/-!
# The OpenMLS bridge

The bridge keeps one OpenMLS group for each conversation.  OpenMLS itself is a parameter: groups,
commits and welcomes are opaque, and `OpenMls` lists the calls that the bridge makes.

* `OpenMls`, `OpenMls.Lawful`: the calls, and what is assumed of them;
* `Bridge.createGroup`, `Bridge.addMembers`, `Bridge.removeMembers`, `Bridge.joinFromWelcome`,
  `Bridge.processCommit`: the commands of the bridge; both membership commands merge their own
  commit at once;
* `transcriptMls_lawful`: a model of the calls in which every law holds.
-/

open Py

namespace SecChat

/-- The operations on groups, as texts on the wire. -/
inductive GroupOp
  | createGroup
  | addMember
  | removeMember
  | leaveGroup
  | setMemberRole
  | updateGroupInfo
  | other (name : String)
  deriving DecidableEq, Repr

/-- A key package after validation, or the leaf made of it: the content of its credential. -/
structure Leaf where
  credential : Bytes
  deriving DecidableEq

/-- `credential_user_id`: the credential is JSON with an integer `user_id`. -/
def credentialUserId (content : Bytes) : Option ℤ :=
  match loads content with
  | .ok value =>
    match value.getItem "user_id" with
    | .ok (.int uid) => if -2 ^ 63 ≤ uid ∧ uid < 2 ^ 63 then some uid else none
    | _ => none
  | .error _ => none

/-- The calls of OpenMLS.  A call that changes a group returns the changed group; `none` is an error,
which leaves the group as it was. -/
structure OpenMls (G C W : Type) where
  /-- `KeyPackageIn::validate` of a decoded key package. -/
  parseKeyPackage : String → Option Leaf
  /-- `MlsGroup::new_with_group_id`. -/
  newGroup : ℤ → Option G
  /-- `group.epoch()`. -/
  epoch : G → ℕ
  /-- `group.members()`, with the indices of the leaves. -/
  members : G → List (ℕ × Leaf)
  /-- `group.add_members` and `merge_pending_commit`. -/
  addMembers : G → List Leaf → Option (G × C × W)
  /-- `group.remove_members` and `merge_pending_commit`. -/
  removeMembers : G → List ℕ → Option (G × C)
  /-- `StagedWelcome::new_from_welcome` and `into_group`. -/
  join : W → Option G
  /-- `group.process_message` and `merge_staged_commit`. -/
  process : G → C → Option G
  /-- `group.create_message`. -/
  encrypt : G → String → Option (G × String)
  /-- The leaves that a commit adds. -/
  added : C → List Leaf

namespace OpenMls

variable {G C W : Type}

/-- What the code relies on: a commit adds the key packages it was made of; a commit can be
processed by the group it was made in, with the result that its author has merged; a commit is only
good for one epoch, the next one being one higher; and members change as the commit says. -/
structure Lawful (M : OpenMls G C W) : Prop where
  added_addMembers : ∀ {g g' : G} {ps : List Leaf} {c : C} {w : W},
    M.addMembers g ps = some (g', c, w) → M.added c = ps
  process_addMembers : ∀ {g g' : G} {ps : List Leaf} {c : C} {w : W},
    M.addMembers g ps = some (g', c, w) → M.process g c = some g'
  process_removeMembers : ∀ {g g' : G} {is : List ℕ} {c : C},
    M.removeMembers g is = some (g', c) → M.process g c = some g'
  join_addMembers : ∀ {g g' : G} {ps : List Leaf} {c : C} {w : W},
    M.addMembers g ps = some (g', c, w) → M.join w = some g'
  process_epoch : ∀ {g g' : G} {c : C}, M.process g c = some g' → M.epoch g' = M.epoch g + 1
  process_once : ∀ {g h g' h' : G} {c : C}, M.process g c = some g' → M.process h c = some h' →
    M.epoch g = M.epoch h
  members_index : ∀ {g : G} {i : ℕ} {a b : Leaf},
    (i, a) ∈ M.members g → (i, b) ∈ M.members g → a = b
  members_addMembers : ∀ {g g' : G} {ps : List Leaf} {c : C} {w : W},
    M.addMembers g ps = some (g', c, w) → ∀ leaf,
      (∃ i, (i, leaf) ∈ M.members g') ↔ (∃ i, (i, leaf) ∈ M.members g) ∨ leaf ∈ ps
  members_removeMembers : ∀ {g g' : G} {is : List ℕ} {c : C},
    M.removeMembers g is = some (g', c) → ∀ i leaf,
      (i, leaf) ∈ M.members g' ↔ (i, leaf) ∈ M.members g ∧ i ∉ is

end OpenMls

/-- `BridgeState.groups`. -/
abbrev Bridge (G : Type) := ℤ → Option G

namespace Bridge

variable {G C W : Type} (M : OpenMls G C W)

/-- `create_group`. -/
def createGroup (b : Bridge G) (conv : ℤ) : Option (Bridge G × G) := do
  let g ← M.newGroup conv
  return (Function.update b conv (some g), g)

/-- `add_members`: all key packages must be valid, and there must be one. -/
def addMembers (b : Bridge G) (conv : ℤ) (keyPackages : List String) :
    Option (Bridge G × G × C × W) := do
  let packages ← keyPackages.mapM M.parseKeyPackage
  if packages.isEmpty then none
  let g ← b conv
  let (g', c, w) ← M.addMembers g packages
  return (Function.update b conv (some g'), g', c, w)

/-- The leaves of the given users. -/
def leavesOf (g : G) (userIds : List ℤ) : List ℕ :=
  (M.members g).filterMap fun (i, leaf) =>
    match credentialUserId leaf.credential with
    | some uid => if uid ∈ userIds then some i else none
    | none => none

/-- `remove_members`. -/
def removeMembers (b : Bridge G) (conv : ℤ) (userIds : List ℤ) : Option (Bridge G × G × C) := do
  if userIds.isEmpty then none
  let g ← b conv
  let leaves := leavesOf M g userIds
  if leaves.isEmpty then none
  let (g', c) ← M.removeMembers g leaves
  return (Function.update b conv (some g'), g', c)

/-- `join_from_welcome`. -/
def joinFromWelcome (b : Bridge G) (conv : ℤ) (welcome : W) : Option (Bridge G × G) := do
  let g ← M.join welcome
  return (Function.update b conv (some g), g)

/-- `process_commit`. -/
def processCommit (b : Bridge G) (conv : ℤ) (commit : C) : Option (Bridge G × G) := do
  let g ← b conv
  let g' ← M.process g commit
  return (Function.update b conv (some g'), g')

/-- `encrypt_application`. -/
def encryptApplication (b : Bridge G) (conv : ℤ) (plaintext : String) :
    Option (Bridge G × String) := do
  let g ← b conv
  let (g', message) ← M.encrypt g plaintext
  return (Function.update b conv (some g'), message)

end Bridge

/-! ### The laws are consistent -/

/-- What a commit changes. -/
inductive Change
  | add (leaves : List Leaf)
  | remove (indices : List ℕ)
  deriving DecidableEq

/-- A group known by its creation and by the changes since. -/
structure Transcript where
  conv : ℤ
  creator : Leaf
  changes : List Change
  deriving DecidableEq

namespace Transcript

/-- The group after one more change. -/
def commit (g : Transcript) (change : Change) : Transcript :=
  { g with changes := g.changes ++ [change] }

/-- The occupied leaves after one more change; new leaves take new indices. -/
def applyChange (members : List (ℕ × Leaf) × ℕ) : Change → List (ℕ × Leaf) × ℕ
  | .add leaves =>
      (members.1 ++ leaves.zipIdx.map fun (leaf, i) => (members.2 + i, leaf),
        members.2 + leaves.length)
  | .remove indices => (members.1.filter fun (i, _) => i ∉ indices, members.2)

/-- The occupied leaves, and the next free index. -/
def leaves (g : Transcript) : List (ℕ × Leaf) × ℕ :=
  g.changes.foldl applyChange ([(0, g.creator)], 1)

/-- The occupied leaves. -/
def members (g : Transcript) : List (ℕ × Leaf) := g.leaves.1

theorem leaves_commit (g : Transcript) (change : Change) :
    (g.commit change).leaves = applyChange g.leaves change := by
  simp [leaves, commit]

/-- Indices are below the next free one, and no index is used twice. -/
theorem leaves_index (g : Transcript) :
    (∀ i leaf, (i, leaf) ∈ g.leaves.1 → i < g.leaves.2) ∧
      ∀ i a b, (i, a) ∈ g.leaves.1 → (i, b) ∈ g.leaves.1 → a = b := by
  unfold leaves
  induction g.changes using List.reverseRecOn with
  | nil =>
    constructor
    · simp
    · intro i a b ha hb
      simp only [List.foldl_nil, List.mem_singleton, Prod.mk.injEq] at ha hb
      rw [ha.2, hb.2]
  | append_singleton changes change ih =>
    rw [List.foldl_append]
    generalize changes.foldl applyChange ([(0, g.creator)], 1) = ls at ih
    obtain ⟨hlt, huniq⟩ := ih
    cases change with
    | add new =>
      simp only [List.foldl_cons, List.foldl_nil, applyChange, List.mem_append, List.mem_map,
        Prod.exists, Prod.mk.injEq]
      have hidx : ∀ leaf k, (leaf, k) ∈ new.zipIdx → k < new.length := by
        intro leaf k hk
        have := List.snd_lt_of_mem_zipIdx hk
        omega
      constructor
      · rintro i leaf (h | ⟨leaf', k, hk, rfl, rfl⟩)
        · have := hlt i leaf h
          omega
        · have := hidx leaf' k hk
          omega
      · rintro i a b (ha | ⟨a', k, hk, rfl, rfl⟩) (hb | ⟨b', k', hk', hkk, rfl⟩)
        · exact huniq i a b ha hb
        · have := hlt i a ha
          omega
        · have := hlt _ b hb
          omega
        · obtain rfl : k' = k := by omega
          have h1 := List.mem_zipIdx hk
          have h2 := List.mem_zipIdx hk'
          rw [h1.2.2, h2.2.2]
    | remove indices =>
      simp only [List.foldl_cons, List.foldl_nil, applyChange, List.mem_filter]
      exact ⟨fun i leaf h => hlt i leaf h.1, fun i a b ha hb => huniq i a b ha.1 hb.1⟩

end Transcript

/-- In the transcript model a key package is its credential, a commit is a change together with the
group it was made in, and a welcome is the group it leads to. -/
def transcriptMls (creator : Leaf) : OpenMls Transcript (Transcript × Change) Transcript where
  parseKeyPackage text := (b64d text).toOption.map Leaf.mk
  newGroup conv := some ⟨conv, creator, []⟩
  epoch g := g.changes.length
  members := Transcript.members
  addMembers g ps := some (g.commit (.add ps), (g, .add ps), g.commit (.add ps))
  removeMembers g is := some (g.commit (.remove is), (g, .remove is))
  join w := some w
  process g c := if c.1 = g then some (g.commit c.2) else none
  encrypt g text := some (g, text)
  added c :=
    match c.2 with
    | .add ps => ps
    | .remove _ => []

/-- **The transcript model satisfies every law.** -/
theorem transcriptMls_lawful (creator : Leaf) : (transcriptMls creator).Lawful where
  added_addMembers h := by
    simp only [transcriptMls, Option.some.injEq, Prod.mk.injEq] at h
    obtain ⟨-, rfl, -⟩ := h
    rfl
  process_addMembers h := by
    simp only [transcriptMls, Option.some.injEq, Prod.mk.injEq] at h
    obtain ⟨rfl, rfl, -⟩ := h
    simp [transcriptMls]
  process_removeMembers h := by
    simp only [transcriptMls, Option.some.injEq, Prod.mk.injEq] at h
    obtain ⟨rfl, rfl⟩ := h
    simp [transcriptMls]
  join_addMembers h := by
    simp only [transcriptMls, Option.some.injEq, Prod.mk.injEq] at h
    obtain ⟨rfl, -, rfl⟩ := h
    rfl
  process_epoch h := by
    simp only [transcriptMls] at h
    split at h
    · obtain rfl := Option.some.inj h
      simp [transcriptMls, Transcript.commit]
    · cases h
  process_once h h' := by
    simp only [transcriptMls] at h h'
    split at h
    · next hg =>
      split at h'
      · next hh => rw [← hg, hh]
      · cases h'
    · cases h
  members_index {g} := (Transcript.leaves_index g).2 _ _ _
  members_addMembers h leaf := by
    simp only [transcriptMls, Option.some.injEq, Prod.mk.injEq] at h
    obtain ⟨rfl, -, -⟩ := h
    simp only [transcriptMls, Transcript.members, Transcript.leaves_commit, Transcript.applyChange,
      List.mem_append, List.mem_map, Prod.exists, Prod.mk.injEq, exists_or]
    refine or_congr Iff.rfl ?_
    constructor
    · rintro ⟨i, leaf', k, hk, -, rfl⟩
      exact List.fst_mem_of_mem_zipIdx hk
    · intro hmem
      obtain ⟨k, hk, rfl⟩ := List.mem_iff_getElem.mp hmem
      exact ⟨_, _, k, List.mk_mem_zipIdx_iff_getElem?.mpr (List.getElem?_eq_getElem hk), rfl, rfl⟩
  members_removeMembers h i leaf := by
    simp only [transcriptMls, Option.some.injEq, Prod.mk.injEq] at h
    obtain ⟨rfl, -⟩ := h
    simp [transcriptMls, Transcript.members, Transcript.leaves_commit, Transcript.applyChange]

/-- A credential with nothing but a user id. -/
def userCredential (uid : ℤ) : Bytes := dumps (.obj [("user_id", .int uid)])

theorem credentialUserId_userCredential {uid : ℤ} (h : -2 ^ 63 ≤ uid ∧ uid < 2 ^ 63) :
    credentialUserId (userCredential uid) = some uid := by
  have hplain : (Json.obj [("user_id", .int uid)]).Plain := by
    simp [Json.Plain, Json.PlainMembers]
  unfold credentialUserId userCredential
  rw [loads_dumps hplain]
  simpa using h

end SecChat
