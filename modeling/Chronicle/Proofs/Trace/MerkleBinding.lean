import Chronicle.Proofs.Bytes.Split
import Chronicle.Proofs.Digest.Collision
import Chronicle.Proofs.Merkle.Binding
import Chronicle.Trace.Hash

/-!
The root of the hash tree commits to the span hashes.

Leaves and nodes are hashed in domains of their own, so that no leaf is a node, and the left half of a
node is a digest of 64 bytes, so that the text of a node comes apart in one way. What the root then
leaves open are repetitions at the end. Where no span hash is repeated, or the number of spans is known,
nothing is left open.
-/

namespace Chronicle.Trace

open Chronicle.Merkle Chronicle.Sha256

/-- All texts hashed for the root of the tree over span hashes. -/
def merkleTexts (spanHashes : List Bytes) : List Bytes :=
  spanHashes.map leafText ++
    (joins nodeHash (spanHashes.map leafHash)).map fun pair => nodeText pair.1 pair.2

/-- The root is the digest of the last of them. -/
theorem merkleRoot_eq_getLast? (spanHashes : List Bytes) :
    merkleRoot spanHashes = ((merkleTexts spanHashes).map hex).getLast?.getD [] := by
  rw [merkleRoot, root?_eq_getLast?, merkleTexts, List.map_append, List.map_map, List.map_map]
  rfl

/-! ### Texts of leaves and nodes -/

lemma leafText_inj {spanHash spanHash' : Bytes} (h : leafText spanHash = leafText spanHash') :
    spanHash = spanHash' :=
  List.append_cancel_left h

lemma nodeText_inj {left left' right right' : Bytes} (hlength : left.length = left'.length)
    (h : nodeText left right = nodeText left' right') : left = left' ∧ right = right' := by
  unfold nodeText at h
  rw [List.append_assoc _ separator, List.append_assoc _ separator] at h
  obtain ⟨hleft, hright⟩ := Bytes.framed_inj hlength h
  exact ⟨hleft, List.append_cancel_left hright⟩

/-- Leaves and nodes have domains of their own. -/
lemma leafText_ne_nodeText (spanHash left right : Bytes) :
    leafText spanHash ≠ nodeText left right := by
  intro h
  have hlength : Domain.leaf.length = Domain.node.length := rfl
  have hdomain : Domain.leaf ≠ Domain.node := by decide
  rw [leafText, nodeText, List.append_assoc, List.append_assoc] at h
  exact hdomain (List.append_inj_left h hlength)

lemma length_nodeHash (left right : Bytes) : (nodeHash left right).length = 64 :=
  length_hex _

lemma length_of_mem_leaves {spanHashes : List Bytes} :
    ∀ leaf ∈ spanHashes.map leafHash, leaf.length = 64 := by
  intro leaf hleaf
  obtain ⟨spanHash, -, rfl⟩ := List.mem_map.mp hleaf
  exact length_hex _

lemma merkleRoot_cases (spanHashes : List Bytes) :
    (spanHashes = [] ∧ merkleRoot spanHashes = []) ∨
      (root? nodeHash (spanHashes.map leafHash) = some (merkleRoot spanHashes) ∧
        (merkleRoot spanHashes).length = 64) := by
  by_cases hempty : spanHashes = []
  · left
    rw [hempty]
    exact ⟨rfl, by simp [merkleRoot, root?]⟩
  · right
    have hleaves : spanHashes.map leafHash ≠ [] := by simpa using hempty
    obtain ⟨top, htop⟩ := exists_root? nodeHash hleaves
    have hroot : merkleRoot spanHashes = top := by rw [merkleRoot, htop, Option.getD_some]
    rw [hroot]
    refine ⟨htop, ?_⟩
    exact (IsLevel.of_root? htop).forall_mem length_of_mem_leaves length_nodeHash top
      List.mem_cons_self

/-! ### What the root stands for -/

section

variable {spanHashes spanHashes' : List Bytes}

/-- The pairs whose nodes are digests of one of these texts. -/
def nodesOf (texts : List Bytes) : Set (Bytes × Bytes) :=
  {pair | pair.1.length = 64 ∧ nodeText pair.1 pair.2 ∈ texts}

lemma mem_nodesOf {texts : List Bytes} (htexts : merkleTexts spanHashes ⊆ texts) :
    ∀ pair ∈ joins nodeHash (spanHashes.map leafHash), pair ∈ nodesOf texts := by
  intro pair hpair
  refine ⟨(forall_mem_joins length_nodeHash length_of_mem_leaves pair hpair).1, htexts ?_⟩
  exact List.mem_append_right _ (List.mem_map.mpr ⟨pair, hpair, rfl⟩)

lemma injOn_nodesOf {texts : List Bytes} (hsafe : ¬ Collision texts) :
    Set.InjOn (fun pair => nodeHash pair.1 pair.2) (nodesOf texts) := by
  rintro ⟨left, right⟩ ⟨hlength, hmem⟩ ⟨left', right'⟩ ⟨hlength', hmem'⟩ h
  have htext := eq_of_hex_eq hsafe hmem hmem' h
  obtain ⟨rfl, rfl⟩ := nodeText_inj (hlength.trans hlength'.symm) htext
  rfl

lemma node_not_mem_leaves {texts : List Bytes} (hsafe : ¬ Collision texts)
    (htexts : merkleTexts spanHashes ⊆ texts) :
    ∀ pair ∈ nodesOf texts, nodeHash pair.1 pair.2 ∉ spanHashes.map leafHash := by
  intro pair hpair hleaf
  obtain ⟨spanHash, hmem, heq⟩ := List.mem_map.mp hleaf
  have htext : leafText spanHash ∈ texts :=
    htexts (List.mem_append_left _ (List.mem_map_of_mem hmem))
  exact leafText_ne_nodeText _ _ _ (eq_of_hex_eq hsafe htext hpair.2 heq)

/-- Up to a collision the root stands for the span hashes up to repetitions at the end. -/
theorem alike_of_merkleRoot_eq {texts : List Bytes} (hsafe : ¬ Collision texts)
    (htexts : merkleTexts spanHashes ⊆ texts) (htexts' : merkleTexts spanHashes' ⊆ texts)
    (h : merkleRoot spanHashes = merkleRoot spanHashes') : Alike spanHashes spanHashes' := by
  rcases merkleRoot_cases spanHashes with ⟨rfl, hroot⟩ | ⟨hroot, hlength⟩ <;>
    rcases merkleRoot_cases spanHashes' with ⟨rfl, hroot'⟩ | ⟨hroot', hlength'⟩
  · exact Alike.refl []
  · rw [← h, hroot] at hlength'
    cases hlength'
  · rw [h, hroot'] at hlength
    cases hlength
  · have hleaves : Alike (spanHashes.map leafHash) (spanHashes'.map leafHash) :=
      alike_of_root?_eq (injOn_nodesOf hsafe) (mem_nodesOf htexts) (mem_nodesOf htexts')
        (node_not_mem_leaves hsafe htexts) (node_not_mem_leaves hsafe htexts') hroot (h ▸ hroot')
    have hinj : Set.InjOn leafHash {spanHash | leafText spanHash ∈ texts} :=
      fun _ hmem _ hmem' heq => leafText_inj (eq_of_hex_eq hsafe hmem hmem' heq)
    exact Alike.of_map hinj
      (fun _ hmem => htexts (List.mem_append_left _ (List.mem_map_of_mem hmem)))
      (fun _ hmem => htexts' (List.mem_append_left _ (List.mem_map_of_mem hmem))) hleaves

/-- **Repetitions at the end are left open**: with an odd last span hash repeated the root is the
same. -/
theorem merkleRoot_evened (h : 1 < spanHashes.length) :
    merkleRoot (evened spanHashes) = merkleRoot spanHashes := by
  have hlength : 1 < (spanHashes.map leafHash).length := by simpa using h
  rw [merkleRoot, merkleRoot, map_evened, root?_evened nodeHash hlength]

/-- **The root of the tree stands for the span hashes**, up to a collision: where two lists that are
equally long, or both without repetitions, have the same root they are the same, or two different ones
of the texts hashed for the two roots have the same digest. -/
theorem merkleRoot_binds
    (hshape : spanHashes.length = spanHashes'.length ∨ spanHashes.Nodup ∧ spanHashes'.Nodup)
    (h : merkleRoot spanHashes = merkleRoot spanHashes') :
    spanHashes = spanHashes' ∨ Collision (merkleTexts spanHashes ++ merkleTexts spanHashes') := by
  by_cases hsafe : Collision (merkleTexts spanHashes ++ merkleTexts spanHashes')
  · exact Or.inr hsafe
  left
  have halike : Alike spanHashes spanHashes' :=
    alike_of_merkleRoot_eq hsafe (List.subset_append_left _ _) (List.subset_append_right _ _) h
  rcases hshape with hlength | ⟨hnodup, hnodup'⟩
  · exact halike.eq_of_length_eq hlength
  · exact halike.eq_of_nodup hnodup hnodup'

end

/-- Three span hashes, so that one of them is joined with itself. -/
def threeHashes : List Bytes := [[97], [], [124, 98]]

theorem merkleRoot_binds_threeHashes :
    threeHashes.Nodup ∧
      (threeHashes = threeHashes ∨
        Collision (merkleTexts threeHashes ++ merkleTexts threeHashes)) := by
  have hnodup : threeHashes.Nodup := by decide
  exact ⟨hnodup, merkleRoot_binds (Or.inr ⟨hnodup, hnodup⟩) rfl⟩

end Chronicle.Trace
