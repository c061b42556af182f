import PsyDogeBridge.BridgeData

/-! The append-only Merkle tree of height 32: it keeps its root, the index of the next leaf and,
for each level, the left sibling that the next leaf will need. -/
namespace AppendTree

open PodLayout CheckedSteps BridgeData

def TREE_HEIGHT : ℕ := 32

def SHA256_ZERO_HASHES : Vector QHash256 64 :=
  (#v[
    0x0000000000000000000000000000000000000000000000000000000000000000,
    0xf5a5fd42d16a20302798ef6ed309979b43003d2320d9f0e8ea9831a92759fb4b,
    0xdb56114e00fdd4c1f85c892bf35ac9a89289aaecb1ebd0a96cde606a748b5d71,
    0xc78009fdf07fc56a11f122370658a353aaa542ed63e44c4bc15ff4cd105ab33c,
    0x536d98837f2dd165a55d5eeae91485954472d56f246df256bf3cae19352a123c,
    0x9efde052aa15429fae05bad4d0b1d7c64da64d03d7a1854a588c2cb8430c0d30,
    0xd88ddfeed400a8755596b21942c1497e114c302e6118290f91e6772976041fa1,
    0x87eb0ddba57e35f6d286673802a4af5975e22506c7cf4c64bb6be5ee11527f2c,
    0x26846476fd5fc54a5d43385167c95144f2643f533cc85bb9d16b782f8d7db193,
    0x506d86582d252405b840018792cad2bf1259f1ef5aa5f887e13cb2f0094f51e1,
    0xffff0ad7e659772f9534c195c815efc4014ef1e1daed4404c06385d11192e92b,
    0x6cf04127db05441cd833107a52be852868890e4317e6a02ab47683aa75964220,
    0xb7d05f875f140027ef5118a2247bbb84ce8f2f0f1123623085daf7960c329f5f,
    0xdf6af5f5bbdb6be9ef8aa618e4bf8073960867171e29676f8b284dea6a08a85e,
    0xb58d900f5e182e3c50ef74969ea16c7726c549757cc23523c369587da7293784,
    0xd49a7502ffcfb0340b1d7885688500ca308161a7f96b62df9d083b71fcc8f2bb,
    0x8fe6b1689256c0d385f42f5bbe2027a22c1996e110ba97c171d3e5948de92beb,
    0x8d0d63c39ebade8509e0ae3c9c3876fb5fa112be18f905ecacfecb92057603ab,
    0x95eec8b2e541cad4e91de38385f2e046619f54496c2382cb6cacd5b98c26f5a4,
    0xf893e908917775b62bff23294dbbe3a1cd8e6cc1c35b4801887b646a6f81f17f,
    0xcddba7b592e3133393c16194fac7431abf2f5485ed711db282183c819e08ebaa,
    0x8a8d7fe3af8caa085a7639a832001457dfb9128a8061142ad0335629ff23ff9c,
    0xfeb3c337d7a51a6fbf00b9e34c52e1c9195c969bd4e7a0bfd51d5c5bed9c1167,
    0xe71f0aa83cc32edfbefa9f4d3e0174ca85182eec9f3a09f6a6c0df6377a510d7,
    0x31206fa80a50bb6abe29085058f16212212a60eec8f049fecb92d8c8e0a84bc0,
    0x21352bfecbeddde993839f614c3dac0a3ee37543f9b412b16199dc158e23b544,
    0x619e312724bb6d7c3153ed9de791d764a366b389af13c58bf8a8d90481a46765,
    0x7cdd2986268250628d0c10e385c58c6191e6fbe05191bcc04f133f2cea72c1c4,
    0x848930bd7ba8cac54661072113fb278869e07bb8587f91392933374d017bcbe1,
    0x8869ff2c22b28cc10510d9853292803328be4fb0e80495e8bb8d271f5b889636,
    0xb5fe28e79f1b850f8658246ce9b6a1e7b49fc06db7143e8fe0b4f2b0c5523a5c,
    0x985e929f70af28d0bdd1a90a808f977f597c7c778c489e98d3bd8910d31ac0f7,
    0xc6f67e02e6e4e1bdefb994c6098953f34636ba2b6ca20a4721d2b26a886722ff,
    0x1c9a7e5ff1cf48b4ad1582d3f4e4a1004f3b20d8c5a2b71387a4254ad933ebc5,
    0x2f075ae229646b6f6aed19a5e372cf295081401eb893ff599b3f9acc0c0d3e7d,
    0x328921deb59612076801e8cd61592107b5c67c79b846595cc6320c395b46362c,
    0xbfb909fdb236ad2411b4e4883810a074b840464689986c3f8a8091827e17c327,
    0x55d8fb3687ba3ba49f342c77f5a1f89bec83d811446e1a467139213d640b6a74,
    0xf7210d4f8e7e1039790e7bf4efa207555a10a6db1dd4b95da313aaa88b88fe76,
    0xad21b516cbc645ffe34ab5de1c8aef8cd4e7f8d2b51e8e1456adc7563cda206f,
    0x6bfe8d2bcc4237b74a5047058ef455339ecd7360cb63bfbb8ee5448e6430ba04,
    0xa7f23ce9181740dc220c814782654fee6aceb9f1ec9222c4e2467d0ab1680837,
    0xaef9476c89590a2c8cc9b3b74f4967c757c49d9866a44bacf21fa2ed675ddfa2,
    0x9a42bcad82f6a9e41284d808ead319f29f3b08209d680f0e2ce71510d071e205,
    0xd1a66d354a67b9cf179571d8e5f97792716e8dd4ec44196839a3f7c6b74f8bac,
    0xfafa3025f2f89509c2c71c74fba0cd92858ef49b0780fb5479746c8a9bfcb346,
    0x3334a7c1e7f6705aa6011a6a949645016db4acde0ca9abd66dc79d8266423056,
    0x0796fd75664faef744ee4e52d7271e2bbb769f91ed6f9b74d8b694f56606852c,
    0x7ba3ae4a417fe8545b142bc89f4adcd7ae13941cbab7750b83e9f0a66d16be64,
    0x788fafcc4aa520399adbaed195f8b12c4eb31ec10168e50aabc659a6aea516dc,
    0xe833d7a67160e68bf4c9044a53077df2727ad00cf36f4949c7b681a912140cbb,
    0x309eabf095dc6714f9f4d864bba5affae0b35ae2f5e3565bcc3a47b212767701,
    0x226a8ebefa288665a644a50273335efbb610510f241b5b720c8a368d59a69a5d,
    0x41abfd995425827625938131af0c4f33fe0bd4688c222c21fa9da8e89caa03f8,
    0x442c642ef50fa1a667a6e6d105c77c5cc3fec8d7aa2570cf1a3077b503c38069,
    0xa0a08dfc9b42d96c2de19b6d127b8ae136ddcf3e5ad0dce422c45a56f61f6a74,
    0x7d348382af096dbe0bf086c7bb39b2a2c0bc36b621ab0c738e9885d731d81740,
    0x3ab134751d191269026c86994eaa8b43a83b4ad1f6d0e77381c4e2974afbc8f6,
    0x9a7452611db2d23eae26f9bdbb88958ef44c64d0fe987be9f726adf938f50f6c,
    0x725c7f816037bfe452cd1e7ba35ac47edcb49a9a2b27aeca70dce483cb7ded1f,
    0x2cea1af51fb28b62887c39998ac9fef4dfdeda1f07e071ba558a173afd06cbc3,
    0xff1d59f98b6c551d95089357057d5c8be26402279e9df0b1df1a10b72bf3927f,
    0x2f8a181f7c99dd215a7529bfe296a9603a1446737186d21aeb8bc7ae59e1fd21,
    0xecc502c9b1145f3950cb7d3e3842446f81a4f0df1df537cee139ef64ea984bd9
  ] : Vector ℕ 64).map const32

def zeroHash (i : ℕ) : QHash256 := SHA256_ZERO_HASHES.getD i zeroBytes

def TXO_MERKLE_INDEX_TOTAL_BITS : ℕ := 28 + 13 + 4

def TXO_EMPTY_MERKLE_TREE_ROOT : QHash256 := zeroHash TXO_MERKLE_INDEX_TOTAL_BITS

/-- The loop of `update_siblings_append_merkle_tree` before level `i`: the siblings, the hash
that goes up, the rest of the index and the rest of the bits that change. -/
structure Climb where
  siblings : Vector QHash256 TREE_HEIGHT
  current : QHash256
  index : UInt64
  changes : UInt64

def Climb.level (c : Crypto) (s : Climb) (i : Fin TREE_HEIGHT) : Climb :=
  if s.index &&& 1 = 0 then
    { siblings := if s.changes &&& 1 = 1 then s.siblings.set i s.current else s.siblings
      current := hashTwoToOne c s.current (zeroHash i)
      index := s.index >>> 1
      changes := s.changes >>> 1 }
  else
    { siblings := if s.changes &&& 1 = 1 then s.siblings.set i (zeroHash i) else s.siblings
      current := hashTwoToOne c (s.siblings.get i) s.current
      index := s.index >>> 1
      changes := s.changes >>> 1 }

def updateSiblingsAppendMerkleTree (c : Crypto) (nextSiblings : Vector QHash256 TREE_HEIGHT)
    (nextValue : QHash256) (nextIndex : UInt64) : Climb :=
  (List.finRange TREE_HEIGHT).foldl (Climb.level c)
    ⟨nextSiblings, nextValue, nextIndex, nextIndex ^^^ (nextIndex + 1)⟩

structure FixedMerkleAppendTree where
  nextIndex : UInt64
  currentRoot : QHash256
  nextSiblings : Vector QHash256 TREE_HEIGHT
  deriving DecidableEq

namespace FixedMerkleAppendTree

def pod : Pod FixedMerkleAppendTree :=
  (Pod.u64.prod (hashPod.prod (hashPod.array TREE_HEIGHT))).record
  { toFun t := (t.nextIndex, t.currentRoot, t.nextSiblings)
    invFun := fun (a, b, c) => ⟨a, b, c⟩
    left_inv _ := rfl
    right_inv _ := rfl }

def newEmpty : FixedMerkleAppendTree where
  nextIndex := 0
  currentRoot := zeroHash TREE_HEIGHT
  nextSiblings := Vector.ofFn fun i => zeroHash i

def getRoot (t : FixedMerkleAppendTree) : QHash256 := t.currentRoot

def append (c : Crypto) (t : FixedMerkleAppendTree) (newValue : QHash256) :
    FixedMerkleAppendTree :=
  let climb := updateSiblingsAppendMerkleTree c t.nextSiblings newValue t.nextIndex
  { nextIndex := t.nextIndex + 1, currentRoot := climb.current, nextSiblings := climb.siblings }

@[simp] theorem append_nextIndex (c : Crypto) (t : FixedMerkleAppendTree) (v : QHash256) :
    (t.append c v).nextIndex = t.nextIndex + 1 := rfl

end FixedMerkleAppendTree

/-- The root that a leaf and its siblings lead to. The source asserts that no bit of the index
is left over. -/
def computeMerkleRoot (c : Crypto) (value : QHash256) (index : UInt64) (siblings : List QHash256) :
    Option QHash256 :=
  let (current, rest) := siblings.foldl (fun (cur, idx) sibling =>
    (if idx &&& 1 = 0 then hashTwoToOne c cur sibling else hashTwoToOne c sibling cur, idx >>> 1))
    (value, index)
  if rest = 0 then some current else none

structure ChangedScan where
  changed : List QHash256
  temp : UInt64
  changedIndex : UInt64

def ChangedScan.level (targetNextSiblings : List QHash256) (s : ChangedScan) (i : Fin TREE_HEIGHT) :
    QDogeResult ChangedScan := do
  let changed ← if s.temp &&& 1 ≠ 0 ∧ s.changedIndex ≠ 0 then do
      let sibling ← orFail targetNextSiblings[i.val]? .panic
      pure (s.changed ++ [sibling])
    else pure s.changed
  pure ⟨changed, s.temp >>> 1, s.changedIndex >>> 1⟩

def getChangedNextSiblingsForRevert (currentNextIndex targetNextIndex : UInt64)
    (targetNextSiblings : List QHash256) : QDogeResult (List QHash256) := do
  ensure (¬ (currentNextIndex = 0 ∨ targetNextIndex ≥ currentNextIndex))
    (coreError .revertIndexTooHigh)
  let s ← (List.finRange TREE_HEIGHT).foldlM (ChangedScan.level targetNextSiblings)
    ⟨[], targetNextIndex, targetNextIndex ^^^ currentNextIndex⟩
  pure s.changed

structure Revert where
  siblings : Vector QHash256 TREE_HEIGHT
  changedIdx : ℕ
  changedIndex : UInt64

def Revert.level (targetNextIndex : UInt64) (changed : List QHash256) (s : Revert)
    (i : Fin TREE_HEIGHT) : QDogeResult Revert :=
  -- The source leaves the loop here; `changed_index` stays `0`, so that later levels do nothing.
  if s.changedIndex = 0 then pure s
  else if targetNextIndex &&& (1 <<< UInt64.ofNat i) ≠ 0 then do
    let sibling ← orFail changed[s.changedIdx]? (coreError .notEnoughChangedLeftSiblings)
    pure ⟨s.siblings.set i sibling, s.changedIdx + 1, s.changedIndex >>> 1⟩
  else pure ⟨s.siblings.set i (zeroHash i), s.changedIdx, s.changedIndex >>> 1⟩

def FixedMerkleAppendTree.revertToNextIndex (c : Crypto) (t : FixedMerkleAppendTree)
    (targetNextIndex : UInt64) (changed : List QHash256) : QDogeResult FixedMerkleAppendTree := do
  ensure (¬ (t.nextIndex = 0 ∨ targetNextIndex ≥ t.nextIndex)) (coreError .revertIndexTooHigh)
  if targetNextIndex = 0 then pure .newEmpty
  else do
    let s ← (List.finRange TREE_HEIGHT).foldlM (Revert.level targetNextIndex changed)
      ⟨t.nextSiblings, 0, targetNextIndex ^^^ t.nextIndex⟩
    let root ← orFail (computeMerkleRoot c zeroBytes targetNextIndex s.siblings.toList) .panic
    pure { nextIndex := targetNextIndex, currentRoot := root, nextSiblings := s.siblings }

structure RevertPath where
  siblings : Vector QHash256 TREE_HEIGHT
  currentHash : QHash256
  revertPathIndex : UInt64
  siblingIdx : ℕ

def RevertPath.level (c : Crypto) (changedLeftSiblings : List QHash256) (s : RevertPath)
    (i : Fin TREE_HEIGHT) : QDogeResult RevertPath :=
  if s.revertPathIndex &&& 1 = 1 then do
    let left ← orFail changedLeftSiblings[s.siblingIdx]? (coreError .notEnoughChangedLeftSiblings)
    pure ⟨s.siblings.set i (zeroHash i) i.isLt, hashTwoToOne c left s.currentHash,
      s.revertPathIndex >>> 1, s.siblingIdx + 1⟩
  else
    pure ⟨s.siblings.set i s.currentHash i.isLt, hashTwoToOne c s.currentHash (zeroHash i),
      s.revertPathIndex >>> 1, s.siblingIdx⟩

def FixedMerkleAppendTree.revertToIndex (c : Crypto) (t : FixedMerkleAppendTree) (index : UInt64)
    (changedLeftSiblings : List QHash256) (value : QHash256) :
    QDogeResult FixedMerkleAppendTree := do
  ensure (¬ (t.nextIndex = 0 ∨ index ≥ t.nextIndex)) (coreError .revertIndexTooHigh)
  if index = 0 then pure .newEmpty
  else do
    let s ← (List.finRange TREE_HEIGHT).foldlM (RevertPath.level c changedLeftSiblings)
      ⟨t.nextSiblings, value, index - 1, 0⟩
    ensure (s.siblingIdx = changedLeftSiblings.length) (coreError .tooManyChangedLeftSiblings)
    pure { nextIndex := index, currentRoot := s.currentHash, nextSiblings := s.siblings }

namespace FixedMerkleAppendTree

variable (c : Crypto) (t : FixedMerkleAppendTree)

/-- `revert_to_next_index` with the tree that it leaves, also when it fails. -/
def revertToNextIndexInPlace (targetNextIndex : UInt64) (changedLeftNextSiblings : List QHash256) :
    FixedMerkleAppendTree × QDogeResult Unit :=
  if t.nextIndex = 0 ∨ targetNextIndex ≥ t.nextIndex then
    (t, .error (coreError .revertIndexTooHigh))
  else if targetNextIndex = 0 then (.newEmpty, .ok ())
  else
    match inPlace (Revert.level targetNextIndex changedLeftNextSiblings) (List.finRange TREE_HEIGHT)
        ⟨t.nextSiblings, 0, targetNextIndex ^^^ t.nextIndex⟩ with
    | (s, .error e) => ({ t with nextSiblings := s.siblings }, .error e)
    | (s, .ok ()) =>
      match computeMerkleRoot c zeroBytes targetNextIndex s.siblings.toList with
      | none => ({ t with nextSiblings := s.siblings }, .error .panic)
      | some root =>
        ({ nextIndex := targetNextIndex, currentRoot := root, nextSiblings := s.siblings }, .ok ())

/-- `revert_to_index` with the tree that it leaves, also when it fails. -/
def revertToIndexInPlace (index : UInt64) (changedLeftSiblings : List QHash256) (value : QHash256) :
    FixedMerkleAppendTree × QDogeResult Unit :=
  if t.nextIndex = 0 ∨ index ≥ t.nextIndex then (t, .error (coreError .revertIndexTooHigh))
  else if index = 0 then (.newEmpty, .ok ())
  else
    match inPlace (RevertPath.level c changedLeftSiblings) (List.finRange TREE_HEIGHT)
        ⟨t.nextSiblings, value, index - 1, 0⟩ with
    | (s, .error e) => ({ t with nextSiblings := s.siblings }, .error e)
    | (s, .ok ()) =>
      if s.siblingIdx ≠ changedLeftSiblings.length then
        ({ t with nextSiblings := s.siblings }, .error (coreError .tooManyChangedLeftSiblings))
      else ({ nextIndex := index, currentRoot := s.currentHash, nextSiblings := s.siblings },
        .ok ())

variable {c t} {u : FixedMerkleAppendTree} {index : UInt64} {siblings : List QHash256}

/-- What both functions do before they touch the tree. -/
theorem revert_ok {inPlace : FixedMerkleAppendTree × QDogeResult Unit}
    {revert : QDogeResult FixedMerkleAppendTree} (h : inPlace = (u, .ok ()) ↔ revert = .ok u) :
    (if t.nextIndex = 0 ∨ index ≥ t.nextIndex then (t, .error (coreError .revertIndexTooHigh))
      else if index = 0 then (newEmpty, .ok ()) else inPlace) = (u, .ok ()) ↔
    (do ensure (¬ (t.nextIndex = 0 ∨ index ≥ t.nextIndex)) (coreError .revertIndexTooHigh)
        if index = 0 then pure newEmpty else revert) = Except.ok u := by
  simp only [bind_ok, ensure_ok, exists_const]
  by_cases hearly : t.nextIndex = 0 ∨ index ≥ t.nextIndex
  · simp [hearly]
  · rw [if_neg hearly, and_iff_right hearly]
    by_cases hzero : index = 0
    · simp [hzero]
    · rw [if_neg hzero, if_neg hzero]
      exact h

theorem revertToNextIndexInPlace_ok :
    t.revertToNextIndexInPlace c index siblings = (u, .ok ()) ↔
      t.revertToNextIndex c index siblings = .ok u := by
  refine revert_ok ?_
  simp only [bind_ok, ← inPlace_ok, orFail_ok, pure_ok]
  cases hloop : inPlace (Revert.level index siblings) (List.finRange TREE_HEIGHT)
      ⟨t.nextSiblings, 0, index ^^^ t.nextIndex⟩ with
  | mk s result =>
    cases result with
    | error e => simp
    | ok =>
      cases hroot : computeMerkleRoot c zeroBytes index s.siblings.toList with
      | none => simp [hroot]
      | some root => simp [hroot]

theorem revertToIndexInPlace_ok {value : QHash256} :
    t.revertToIndexInPlace c index siblings value = (u, .ok ()) ↔
      t.revertToIndex c index siblings value = .ok u := by
  refine revert_ok ?_
  simp only [bind_ok, ← inPlace_ok, ensure_ok, exists_const, pure_ok]
  cases hloop : inPlace (RevertPath.level c siblings) (List.finRange TREE_HEIGHT)
      ⟨t.nextSiblings, value, index - 1, 0⟩ with
  | mk s result =>
    cases result with
    | error e => simp
    | ok =>
      by_cases hall : s.siblingIdx = siblings.length
      · simp [hall]
      · simp [hall]

end FixedMerkleAppendTree

structure FixedMerkleAppendTreePartialMerkleProof where
  index : UInt64
  value : QHash256
  siblings : Vector QHash256 TREE_HEIGHT
  deriving DecidableEq

namespace FixedMerkleAppendTreePartialMerkleProof

def pod : Pod FixedMerkleAppendTreePartialMerkleProof :=
  (Pod.u64.prod (hashPod.prod (hashPod.array TREE_HEIGHT))).record
  { toFun t := (t.index, t.value, t.siblings)
    invFun := fun (a, b, c) => ⟨a, b, c⟩
    left_inv _ := rfl
    right_inv _ := rfl }

def computeRootSha256 (c : Crypto) (p : FixedMerkleAppendTreePartialMerkleProof) :
    Option QHash256 :=
  computeMerkleRoot c p.value p.index p.siblings.toList

end FixedMerkleAppendTreePartialMerkleProof

end AppendTree
