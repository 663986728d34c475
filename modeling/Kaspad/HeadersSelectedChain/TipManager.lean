import Kaspad.HeadersSelectedChain.Staging

/-! # The headers selected tip

`AddHeaderTip` of `domain/consensus/processes/headersselectedtipmanager/headersselectedtipmanager.go`.
In every state of a run of calls, each followed by a commit, the two maps of the chain store are
inverse to each other and list the selected chain of the headers selected tip from genesis upward.
-/

namespace Kaspad.HeadersSelectedChain
open Lib Lib.ParentChain Traversal Ghostdag List

structure State where
  headersSelectedTip : Option DomainHash
  chain : ChainStore

def State.initial (indexCacheSize hashCacheSize : ℕ) : State :=
  ⟨none, ⟨∅, indexCacheSize⟩, ⟨∅, hashCacheSize⟩, 0, ∅, ∅, none⟩

structure Staged where
  headersSelectedTip : Option DomainHash
  shard : StagingShard
  chain : ChainStore

variable (m : Traversal.Manager) (st : Stores) (v : Victims) (rounds : ℕ)

def stageTip (chain : ChainStore) (tip : DomainHash) (chainChanges : SelectedChainPath) :
    Except ChainStoreError Staged :=
  match stage v .empty chain chainChanges with
  | (.error error, _) => .error error
  | (.ok shard, chain) => .ok ⟨some tip, shard, chain⟩

def addHeaderTip (s : State) (hash : DomainHash) : Except ChainStoreError Staged :=
  match s.headersSelectedTip with
  | none => stageTip v s.chain hash ⟨[hash], []⟩
  | some headersSelectedTip => do
    let newHeadersSelectedTip ←
      (chooseSelectedParent st headersSelectedTip [hash]).mapError .ghostdag
    if newHeadersSelectedTip ≠ headersSelectedTip then
      let chainChanges ←
        (calculateChainPath m st rounds headersSelectedTip newHeadersSelectedTip).mapError .traversal
      stageTip v s.chain newHeadersSelectedTip chainChanges
    else pure ⟨none, .empty, s.chain⟩

def State.commit (s : State) (staged : Staged) : State :=
  ⟨staged.headersSelectedTip.or s.headersSelectedTip, HeadersSelectedChain.commit v staged.shard staged.chain⟩

def addHeaderTips : List DomainHash → State → Except ChainStoreError State
  | [], s => pure s
  | hash :: hashes, s => do
    let staged ← addHeaderTip m st v rounds s hash
    addHeaderTips hashes (s.commit v staged)

/-! ## The invariant -/

/-- Blue work grows along the selected parents. -/
structure WorkTree (genesisHash : DomainHash) (st : Stores) : Prop extends SelectedTree genesisHash st where
  work : ∀ h p, chainParent st genesisHash h = some p → st.work p < st.work h

theorem workTree_of_recorded {g : Ghostdag.Manager} {dag : List Block} (hdag : IsDAG g dag)
    (hst : Recorded g dag dag st) (hlen : dag.length < 2 ^ 64) (hpos : PositiveWork dag) :
    WorkTree g.genesisHash st := by
  refine ⟨selectedTree_of_recorded hdag hst hlen, fun h p hp => ?_⟩
  obtain ⟨b, hb, rfl, d, -, hmerge⟩ := (selectedTree_of_recorded hdag hst hlen).mergeData hst hp
  exact (hst.work b hb p hmerge.mem).2 hpos

def ChainOf (genesisHash : DomainHash) (st : Stores) (tip : DomainHash) (l : List DomainHash) : Prop :=
  ∃ down, Descent (chainParent st genesisHash) tip down genesisHash ∧ l = genesisHash :: down.reverse

structure State.Good (genesisHash : DomainHash) (st : Stores) (s : State) : Prop where
  coherent : s.chain.Coherent
  none : s.headersSelectedTip = none → s.chain.db.Lists []
  some : ∀ tip, s.headersSelectedTip = some tip → Known st tip ∧
    ∃ l, ChainOf genesisHash st tip l ∧ s.chain.db.Lists l

/-- A read through the staging area finds what it finds after the commit. -/
def ReadsAgree (s : State) (staged : Staged) : Prop :=
  (∀ hash, (getIndexByHash v staged.shard staged.chain hash).1 =
      (getIndexByHash v .empty (s.commit v staged).chain hash).1) ∧
    ∀ index, (getHashByIndex v staged.shard staged.chain index).1 =
      (getHashByIndex v .empty (s.commit v staged).chain index).1

section
variable {m st} {genesisHash tip : DomainHash} {l : List DomainHash}

theorem ChainOf.nodup (htree : SelectedTree genesisHash st) (h : ChainOf genesisHash st tip l) : l.Nodup := by
  obtain ⟨down, hdown, rfl⟩ := h
  refine nodup_cons.mpr ⟨fun hin => ?_, nodup_reverse.mpr (hdown.nodup htree.rank)⟩
  have hlt := (hdown.mem htree.rank (mem_reverse.mp hin)).2.2
  omega

theorem good_initial (indexCacheSize hashCacheSize : ℕ) :
    (State.initial indexCacheSize hashCacheSize).Good genesisHash st := by
  refine ⟨⟨fun h i hin => ?_, fun i h hin => ?_, by simp [State.initial]⟩, fun _ => ⟨?_, ?_, ?_⟩,
    by simp [State.initial]⟩
  · simp [State.initial, Cache.get] at hin
  · simp [State.initial, Cache.get] at hin
  · simp [State.initial]
  · simp [State.initial]
  · simp [State.initial]

theorem stageTip_spec (tip : DomainHash) {s : State} (hs : s.chain.Coherent)
    (kept removed added : List DomainHash) (hl : s.chain.db.Lists (kept ++ removed.reverse))
    (hnodup : (kept ++ removed.reverse).Nodup) (hnodup' : (kept ++ added).Nodup) (hadded : added ≠ []) :
    ∃ staged, stageTip v s.chain tip ⟨added, removed⟩ = .ok staged ∧ ReadsAgree v s staged ∧
      (s.commit v staged).headersSelectedTip = some tip ∧ (s.commit v staged).chain.Coherent ∧
      (s.commit v staged).chain.db.Lists (kept ++ added) := by
  obtain ⟨shard, chain, hstage, hcoherent, hdb, hchange⟩ :=
    stage_spec v hs hl hnodup (nodup_append.mp hnodup').2.1
  obtain ⟨hstaged, hhighest⟩ := hchange.highest hadded
  obtain ⟨hcommit, hbyHash, hbyIndex, htop⟩ := commit_spec v hcoherent hstaged hchange.inverse
  refine ⟨⟨some tip, shard, chain⟩, ?_, ⟨fun h => ?_, fun i => ?_⟩, rfl, hcommit, ⟨fun h i => ?_, fun i => ?_, ?_⟩⟩
  · unfold stageTip
    rw [hstage]
  · have hafter := (getIndexByHash_spec v hcommit .empty h).1
    rw [(getIndexByHash_spec v hcoherent shard h).1, ← hbyHash]
    exact hafter.symm
  · have hafter := getHashByIndex_spec v hcommit .empty i
    rw [getHashByIndex_spec v hcoherent shard i, ← hbyIndex]
    exact hafter.symm
  · have hbyHash' : (s.commit v ⟨some tip, shard, chain⟩).chain.db.indexByHash.lookup h =
        indexThrough shard chain.db h := hbyHash h
    rw [hbyHash', hdb]
    exact hchange.indexThrough_iff hl hnodup hnodup' h i
  · have hbyIndex' : (s.commit v ⟨some tip, shard, chain⟩).chain.db.hashByIndex.lookup i =
        hashThrough shard chain.db i := hbyIndex i
    rw [hbyIndex', hdb]
    exact hchange.hashThrough_eq hl hnodup i
  · rw [if_neg (by simp [hadded]), ← hhighest]
    exact htop

end

variable {m st} (htree : WorkTree m.genesisHash st) (hcorrect : m.ChainsCorrect st)
  (hrounds : ∀ h, Known st h → score st h < rounds)

include htree hcorrect hrounds

/-- One header: the list stays the selected chain of the tip, staged and committed. -/
theorem addHeaderTip_spec {s : State} (hs : s.Good m.genesisHash st) {hash : DomainHash}
    (hknown : Known st hash) (hfirst : s.headersSelectedTip = none → hash = m.genesisHash) :
    ∃ staged, addHeaderTip m st v rounds s hash = .ok staged ∧ ReadsAgree v s staged ∧
      (s.commit v staged).Good m.genesisHash st ∧ (s.commit v staged).headersSelectedTip ≠ none := by
  unfold addHeaderTip
  cases htip : s.headersSelectedTip with
  | none =>
    obtain rfl := hfirst htip
    obtain ⟨staged, hstage, hreads, htip', hcoherent, hlists⟩ := stageTip_spec v m.genesisHash
      hs.coherent [] [] [m.genesisHash] (hs.none htip) (by simp) (by simp) (by simp)
    refine ⟨staged, hstage, hreads, ⟨hcoherent, by simp [htip'], fun tip ht => ?_⟩, by simp [htip']⟩
    obtain rfl : m.genesisHash = tip := by simpa [htip'] using ht
    exact ⟨hknown, _, ⟨[], rfl, rfl⟩, hlists⟩
  | some tip =>
    obtain ⟨hktip, l, ⟨down, hdown, rfl⟩, hl⟩ := hs.some tip htip
    have hktip' := hktip
    have hknown' := hknown
    obtain ⟨dt, hdt⟩ := hktip
    obtain ⟨dh, hdh⟩ := hknown
    simp only [chooseSelectedParent_pair hdt hdh, Except.mapError, ok_bind]
    by_cases hlt : st.key tip < st.key hash
    · have hne : hash ≠ tip := fun heq => absurd hlt (by simp [heq])
      obtain ⟨common, removed, added, hremoved, hadded, -, hpath⟩ := calculateChainPath_spec
        htree.toSelectedTree hcorrect hktip' hknown' (max_lt (hrounds tip hktip') (hrounds hash hknown'))
      have hcommon := htree.known_of_onChain hremoved.onChain hktip'
      obtain ⟨rest, hrest⟩ := exists_descent (htree.genesis_onChain hcommon)
      obtain rfl := hdown.unique chainParent_genesis (hremoved.append hrest)
      have hold : m.genesisHash :: (removed ++ rest).reverse =
          (m.genesisHash :: rest.reverse) ++ removed.reverse := by simp
      have hnew : m.genesisHash :: (added ++ rest).reverse =
          (m.genesisHash :: rest.reverse) ++ added.reverse := by simp
      have hchain : ChainOf m.genesisHash st hash (m.genesisHash :: (added ++ rest).reverse) :=
        ⟨_, hadded.append hrest, rfl⟩
      have hadded' : added ≠ [] := by
        -- Otherwise the new tip is below the old one, and has less work.
        rintro rfl
        obtain rfl : hash = common := hadded
        have hwork := OnChain.rank_lt htree.work hremoved.onChain hne
        have hle := (Prod.Lex.toLex_le_toLex.mp hlt.le)
        omega
      rw [hold] at hl
      obtain ⟨staged, hstage, hreads, htip', hcoherent, hlists⟩ := stageTip_spec v hash hs.coherent _ removed
        added.reverse hl (hold ▸ ChainOf.nodup htree.toSelectedTree ⟨_, hdown, rfl⟩)
        (hnew ▸ hchain.nodup htree.toSelectedTree) (by simpa using hadded')
      refine ⟨staged, ?_, hreads, ⟨hcoherent, by simp [htip'], fun tip' ht => ?_⟩, by simp [htip']⟩
      · simp only [if_pos hlt, ne_eq, hne, not_false_eq_true, if_true, hpath]
        exact hstage
      obtain rfl : hash = tip' := by simpa [htip'] using ht
      exact ⟨hknown', _, hchain, hnew ▸ hlists⟩
    · have hunstaged : commit v .empty s.chain = s.chain := rfl
      refine ⟨⟨none, .empty, s.chain⟩, ?_, ⟨fun h => ?_, fun i => ?_⟩, ?_, ?_⟩
      · simp only [if_neg hlt, ne_eq, not_true_eq_false, if_false]
        rfl
      · simp only [State.commit, hunstaged]
      · simp only [State.commit, hunstaged]
      · have hsame : s.commit v ⟨none, .empty, s.chain⟩ = s := by
          simp only [State.commit, hunstaged, Option.none_or]
        rw [hsame]
        exact hs
      · simp [State.commit, htip]

theorem addHeaderTips_spec {s : State} (hs : s.Good m.genesisHash st) {hashes : List DomainHash}
    (hknown : ∀ h ∈ hashes, Known st h)
    (hfirst : s.headersSelectedTip = none → ∀ h, hashes.head? = some h → h = m.genesisHash) :
    ∃ s', addHeaderTips m st v rounds hashes s = .ok s' ∧ s'.Good m.genesisHash st ∧
      (s'.headersSelectedTip = none → s.headersSelectedTip = none ∧ hashes = []) := by
  induction hashes generalizing s with
  | nil => exact ⟨s, rfl, hs, fun h => ⟨h, rfl⟩⟩
  | cons hash hashes ih =>
    obtain ⟨staged, hadd, -, hgood, htip⟩ := addHeaderTip_spec v rounds htree hcorrect hrounds hs
      (hknown hash (by simp)) fun h => hfirst h hash rfl
    obtain ⟨s', hrun, hs', htip'⟩ := ih hgood (fun h hh => hknown h (by simp [hh])) fun h => absurd h htip
    refine ⟨s', ?_, hs', fun h => absurd (htip' h).1 htip⟩
    unfold addHeaderTips
    simp only [hadd, ok_bind, hrun]

/-- The maps are inverse to each other and list the selected chain of the tip; staged reads answer as after the
commit. -/
theorem headersSelectedChain_lists_chain (indexCacheSize hashCacheSize : ℕ) (calls : List DomainHash)
    (hash : DomainHash) (hknown : ∀ h ∈ calls ++ [hash], Known st h)
    (hfirst : (calls ++ [hash]).head? = some m.genesisHash) :
    ∃ s staged, addHeaderTips m st v rounds calls (.initial indexCacheSize hashCacheSize) = .ok s ∧
      addHeaderTip m st v rounds s hash = .ok staged ∧ ReadsAgree v s staged ∧
      ∃ tip down, (s.commit v staged).headersSelectedTip = some tip ∧
        Descent (chainParent st m.genesisHash) tip down m.genesisHash ∧
        (∀ i h, (s.commit v staged).chain.db.hashByIndex.lookup i = some h ↔
          (m.genesisHash :: down.reverse)[i]? = some h) ∧
        (∀ h i, (s.commit v staged).chain.db.indexByHash.lookup h = some i ↔
          (s.commit v staged).chain.db.hashByIndex.lookup i = some h) ∧
        (∀ i, ((s.commit v staged).chain.db.hashByIndex.lookup i).isSome = true ↔ i ≤ down.length) ∧
        (s.commit v staged).chain.db.highestChainBlockIndex = some down.length := by
  obtain ⟨s, hrun, hs, htip⟩ := addHeaderTips_spec v rounds htree hcorrect hrounds
    (good_initial indexCacheSize hashCacheSize) (fun h hh => hknown h (mem_append_left _ hh)) (fun _ h hh => by
      rw [List.head?_append, hh] at hfirst
      simpa using hfirst)
  obtain ⟨staged, hadd, hreads, hgood, hsome⟩ := addHeaderTip_spec v rounds htree hcorrect hrounds hs
    (hknown hash (by simp)) fun hnone => by
      rw [(htip hnone).2] at hfirst
      simpa using hfirst
  obtain ⟨tip, htip'⟩ := Option.ne_none_iff_exists'.mp hsome
  obtain ⟨-, l, ⟨down, hdown, rfl⟩, hlists⟩ := hgood.some tip htip'
  refine ⟨s, staged, hrun, hadd, hreads, tip, down, htip', hdown, fun i h => ?_, fun h i => ?_, fun i => ?_, ?_⟩
  · rw [hlists.byIndex]
  · rw [hlists.byHash, hlists.byIndex]
  · rw [hlists.byIndex, Option.isSome_iff_exists]
    constructor
    · rintro ⟨h, hh⟩
      have hlt := (List.getElem?_eq_some_iff.mp hh).1
      simp only [length_cons, length_reverse] at hlt
      omega
    · intro hi
      exact ⟨_, List.getElem?_eq_getElem (by simpa using Nat.lt_succ_of_le hi)⟩
  · rw [hlists.highest]
    simp

omit htree hcorrect hrounds

theorem headersSelectedChain_lists_chain_diamond :
    ∃ s staged, addHeaderTips (managerOf 1 diamondStores) diamondStores ⟨fun _ => 0, fun _ => 0⟩ 10 [1, 2]
        (.initial 2 2) = .ok s ∧
      addHeaderTip (managerOf 1 diamondStores) diamondStores ⟨fun _ => 0, fun _ => 0⟩ 10 s 4 = .ok staged ∧
      ReadsAgree ⟨fun _ => 0, fun _ => 0⟩ s staged := by
  obtain ⟨hdag, -⟩ := isDAG_of_checkDAG diamond_checkDAG
  have htree : WorkTree 1 diamondStores := workTree_of_recorded diamondStores hdag diamond_recorded
    (by decide) (by unfold PositiveWork; decide +kernel)
  have hscores : ∀ h ∈ hashes diamond, score diamondStores h < 10 := by decide +kernel
  have hknown : ∀ h ∈ [1, 2] ++ [4], (diamondStores.data.lookup h).isSome = true := by decide +kernel
  obtain ⟨s, staged, hrun, hadd, hreads, -⟩ := headersSelectedChain_lists_chain
    (m := managerOf 1 diamondStores) ⟨fun _ => 0, fun _ => 0⟩ 10 htree
    (chainsCorrect_managerOf htree.toSelectedTree)
    (fun h ⟨d, hd⟩ => hscores h (diamond_recorded.only h d hd)) 2 2 [1, 2] 4
    (fun h hh => Option.isSome_iff_exists.mp (hknown h hh)) rfl
  exact ⟨s, staged, hrun, hadd, hreads⟩

end Kaspad.HeadersSelectedChain
