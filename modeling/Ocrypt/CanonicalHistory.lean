import Ocrypt.ScanRuns

/-! One shard for each chain: the block history has one canonical block at a height, none above
the cursor, and the block to which the cursor is bound, as long as a hash stands at one height. -/
namespace Ocrypt.CanonicalHistory
open Fallible Table Store Scanner Reorg RangeChecks ScanWorker BlockHistory Transactions ScanRuns
  List

def OneShard (shardOf : String → String) : Action → Prop
  | .start w _ => w.shard = shardOf w.chainID
  | _ => True

def HeightsFixed (heightOf : (chainID hash : String) → ℕ) : Action → Prop
  | .commit call a _ => ∀ fromHeight toHeight r, a.scanRange fromHeight toHeight = .ok r →
      ∀ b ∈ r.blocks, heightOf call.lease.chainID b.hash = b.height
  | _ => True

abbrev chainCursor (capability : String) (shardOf : String → String) (s : World)
    (chainID : String) : ScannerCursor :=
  row capability s.db.cursors chainID (shardOf chainID)

structure History (capability : String) (shardOf : String → String)
    (heightOf : (chainID hash : String) → ℕ) (s : World) : Prop where
  shards : ∀ call ∈ s.calls, call.worker.shard = shardOf call.worker.chainID
  heights : ∀ b ∈ s.db.chainBlocks, heightOf b.chainID b.hash = b.height
  below : ∀ chainID x, Canonical s.db.chainBlocks chainID x →
    x.height ≤ (chainCursor capability shardOf s chainID).height
  unique : ∀ chainID x y, Canonical s.db.chainBlocks chainID x →
    Canonical s.db.chainBlocks chainID y → x.height = y.height → x = y
  cursor : ∀ chainID, (chainCursor capability shardOf s chainID).hash ≠ "" →
    Canonical s.db.chainBlocks chainID ⟨(chainCursor capability shardOf s chainID).height,
      (chainCursor capability shardOf s chainID).hash⟩

variable {hash chainID : String}

section
variable {ext : Externals} {capability : String} {shardOf : String → String}
  {heightOf : (chainID hash : String) → ℕ} {s t : World} {a : Action} {lease : Lease}
  {r : ScannedRange} {clock : ℤ} {call : Call} {answers : Answers} {height : ℕ} {x : BlockRef}

lemma mem_calls (h : exec ext capability s a = .ok t) (hca : call ∈ t.calls) :
    call ∈ s.calls ∨ ∃ now, a = .start call.worker now := by
  cases a with
  | start w now =>
    simp only [exec,do_ok] at h
    obtain ⟨db,lease,-,rfl⟩ := h
    rcases mem_snoc.mp hca with hca | rfl
    · exact .inl hca
    · exact .inr ⟨now,rfl⟩
  | renew call' clock | release call' =>
    simp only [exec,do_eq_ok,pure_eq_ok] at h
    obtain ⟨-,-,db,-,rfl⟩ := h
    exact .inl hca
  | commit call' answers clock | rewind call' answers clock ids =>
    simp only [exec,do_eq_ok] at h
    obtain ⟨-,-,h⟩ := h
    split at h
    · simp only [do_ok] at h
      obtain ⟨db,-,rfl⟩ := h
      exact .inl hca
    · cases h
  | other f =>
    cases h
    exact .inl hca

lemma running_of_commit
    (h : exec ext capability s (.commit call answers clock) = .ok t) : call ∈ s.calls := by
  simp only [exec,do_ok] at h
  exact h.1

lemma running_of_rewind {ids : ReorgIDs}
    (h : exec ext capability s (.rewind call answers clock ids) = .ok t) : call ∈ s.calls := by
  simp only [exec,do_ok] at h
  exact h.1

lemma shards_step (hsh : ∀ call ∈ s.calls, call.worker.shard = shardOf call.worker.chainID)
    (ho : OneShard shardOf a) (h : exec ext capability s a = .ok t) :
    ∀ call ∈ t.calls, call.worker.shard = shardOf call.worker.chainID := by
  intro call hca
  rcases mem_calls h hca with hold | ⟨now,rfl⟩
  · exact hsh call hold
  · exact ho

lemma admissible_of_fixed (heightOf : (chainID hash : String) → ℕ)
    (hsh : Shaped r r.fromHeight r.toHeight)
    (hro : ∀ b ∈ s.db.chainBlocks, heightOf b.chainID b.hash = b.height)
    (hbl : ∀ b ∈ r.blocks, heightOf lease.chainID b.hash = b.height) :
    Admissible s.db.chainBlocks lease.chainID (r.blocks.map Block.ref) := by
  have hre : ∀ x ∈ r.blocks.map Block.ref, heightOf lease.chainID x.hash = x.height := by
    intro x hx
    obtain ⟨b,hb,rfl⟩ := mem_map.mp hx
    exact hbl b hb
  refine ⟨?_,?_,?_⟩
  · intro x hx b hb hch hh
    rw [← hro b hb,← hre x hx,hch,hh]
  · intro x hx y hy hh
    rw [← hre x hx,← hre y hy,hh]
  · rw [map_map]
    have hd := hsh.ordered.imp Nat.ne_of_lt
    exact pairwise_map.mpr hd

section
variable (h : Moved capability s.db.cursors t.db.cursors lease height hash)
include h

lemma other_chain (hne : chainID ≠ lease.chainID) :
    chainCursor capability shardOf t chainID = chainCursor capability shardOf s chainID :=
  h.others _ _ fun heq => hne (Prod.mk.inj heq).1

lemma own_chain (hsh : lease.shard = shardOf lease.chainID) :
    ((chainCursor capability shardOf s lease.chainID).height = lease.height ∧
      (chainCursor capability shardOf s lease.chainID).hash = lease.hash) ∧
    (chainCursor capability shardOf t lease.chainID).height = height ∧
      (chainCursor capability shardOf t lease.chainID).hash = hash := by
  unfold chainCursor
  rw [← hsh]
  exact ⟨h.before,h.after⟩

end

lemma lastHash_ref (hsh : Shaped r r.fromHeight r.toHeight) :
    (⟨r.toHeight,lastHash r⟩ : BlockRef) ∈ r.blocks.map Block.ref := by
  obtain ⟨last,hl,hh⟩ := hsh.ends
  refine mem_map.mpr ⟨last,mem_of_getLast? hl,?_⟩
  simp [Block.ref,lastHash,Option.mem_def.mp hl,hh]

lemma canonical_extended (he : Extended capability s t lease r clock)
    (had : Admissible s.db.chainBlocks lease.chainID (r.blocks.map Block.ref))
    (h : Canonical t.db.chainBlocks lease.chainID x) :
    x ∈ r.blocks.map Block.ref ∨ (Canonical s.db.chainBlocks lease.chainID x ∧
      ∀ b ∈ r.blocks.map Block.ref, x.height ≠ b.height) := by
  rw [he.chainBlocks] at h
  exact (canonical_committed had).mp (canonical_of_pruneBlocks h)

lemma canonical_extended_other
    (he : Extended capability s t lease r clock) (hne : chainID ≠ lease.chainID) :
    Canonical t.db.chainBlocks chainID x ↔ Canonical s.db.chainBlocks chainID x := by
  rw [he.chainBlocks]
  exact canonical_committed_other hne

lemma canonical_rewound (hre : Rewound capability s t lease r clock) :
    Canonical t.db.chainBlocks chainID x ↔ Canonical s.db.chainBlocks chainID x ∧
      ¬(chainID = lease.chainID ∧ (rewindPoint s.db lease r.stored).height < x.height ∧
        x.height ≤ lease.height) := by
  rw [hre.chainBlocks]
  exact canonical_rewoundBlocks

section
variable (h : History capability shardOf heightOf s)
include h

lemma History.quiet (hq : Quiet capability s t)
    (hsh : ∀ call ∈ t.calls, call.worker.shard = shardOf call.worker.chainID) :
    History capability shardOf heightOf t := by
  refine ⟨hsh,?_,?_,?_,?_⟩
  · rw [hq.chainBlocks]
    exact h.heights
  · intro chainID x
    rw [hq.chainBlocks,(hq.stays _ _).1]
    exact h.below chainID x
  · rw [hq.chainBlocks]
    exact h.unique
  · intro chainID
    rw [hq.chainBlocks,(hq.stays _ _).1,(hq.stays _ _).2]
    exact h.cursor chainID

lemma History.extended
    (he : Extended capability s t lease r clock) (hsr : lease.shard = shardOf lease.chainID)
    (hbl : ∀ b ∈ r.blocks, heightOf lease.chainID b.hash = b.height)
    (hsa : ∀ call ∈ t.calls, call.worker.shard = shardOf call.worker.chainID) :
    History capability shardOf heightOf t := by
  have hsh := he.shaped
  have had := admissible_of_fixed heightOf hsh h.heights hbl
  have ho := own_chain he.moved hsr
  refine ⟨hsa,?_,?_,?_,?_⟩
  · intro b hb
    rw [he.chainBlocks] at hb
    rcases mem_committed hb with ⟨x,hx,hch,hhe,hha⟩ | ⟨b₀,hb₀,hch,hhe,hha⟩
    · obtain ⟨c,hc,rfl⟩ := mem_map.mp hx
      rw [hch,hhe,hha]
      exact hbl c hc
    · rw [hch,hhe,hha]
      exact h.heights b₀ hb₀
  · intro chainID x hx
    by_cases hch : chainID = lease.chainID
    · subst hch
      rw [ho.2.1]
      rcases canonical_extended he had hx with hm | ⟨hold,-⟩
      · obtain ⟨b,hb,rfl⟩ := mem_map.mp hm
        exact (hsh.mem hb).2.1
      · have hbe := h.below _ x hold
        have hre := he.toHeight
        omega
    · rw [other_chain he.moved hch]
      exact h.below chainID x ((canonical_extended_other he hch).mp hx)
  · intro chainID x y hx hy hhe
    by_cases hch : chainID = lease.chainID
    · subst hch
      rcases canonical_extended he had hx with hx | ⟨hx,hxn⟩
      · rcases canonical_extended he had hy with hy | ⟨-,hyn⟩
        · exact inj_on_of_nodup_map had.heights hx hy hhe
        · exact absurd hhe.symm (hyn x hx)
      · rcases canonical_extended he had hy with hy | ⟨hy,-⟩
        · exact absurd hhe (hxn y hy)
        · exact h.unique _ x y hx hy hhe
    · rw [canonical_extended_other he hch] at hx hy
      exact h.unique chainID x y hx hy hhe
  · intro chainID
    by_cases hch : chainID = lease.chainID
    · subst hch
      rw [ho.2.1,ho.2.2,he.chainBlocks]
      intro _
      exact canonical_pruneBlocks ((canonical_committed had).mpr (.inl (lastHash_ref hsh)))
    · rw [other_chain he.moved hch,canonical_extended_other he hch]
      exact h.cursor chainID

lemma History.rewound
    (hre : Rewound capability s t lease r clock) (hsa : lease.shard = shardOf lease.chainID)
    (hsh : ∀ call ∈ t.calls, call.worker.shard = shardOf call.worker.chainID) :
    History capability shardOf heightOf t := by
  have ho := own_chain hre.moved hsa
  refine ⟨hsh,?_,?_,?_,?_⟩
  · rw [hre.chainBlocks]
    exact forall_update h.heights fun _ _ _ hb => hb
  · intro chainID x hx
    obtain ⟨hold,hke⟩ := (canonical_rewound hre).mp hx
    have hbe := h.below chainID x hold
    by_cases hch : chainID = lease.chainID
    · subst hch
      rw [ho.1.1] at hbe
      by_contra hao
      exact hke ⟨rfl,by omega,hbe⟩
    · rw [other_chain hre.moved hch]
      exact hbe
  · intro chainID x y hx hy hhe
    rw [canonical_rewound hre] at hx hy
    exact h.unique chainID x y hx.1 hy.1 hhe
  · intro chainID hha
    rw [canonical_rewound hre]
    by_cases hch : chainID = lease.chainID
    · subst hch
      rw [ho.2.2] at hha
      rw [ho.2.1,ho.2.2]
      refine ⟨?_,fun hao => by simp at hao⟩
      rcases rewindPoint_cases s.db lease r.stored with han | ⟨-,-,hp⟩ |
        ⟨-,-,-,hk | ⟨he,-⟩⟩
      · exact (commonAncestor_some han).2.2
      · rw [hp] at hha
        exact absurd rfl hha
      · exact hk
      · exact absurd he hha
    · rw [other_chain hre.moved hch] at hha ⊢
      exact ⟨h.cursor chainID hha,fun hao => hch hao.1⟩

lemma History.leases (hf : Fenced capability s) :
    ∀ call ∈ s.calls, call.lease.shard = shardOf call.lease.chainID := by
  intro call hca
  have hl := hf.calls call hca
  rw [hl.shard,hl.chainID]
  exact h.shards call hca

end

/-- One transaction keeps one canonical block a height, up to the cursor. -/
lemma History.step (hf : Fenced capability s) (h : History capability shardOf heightOf s)
    (ho : OneShard shardOf a) (hfi : HeightsFixed heightOf a)
    (he : exec ext capability s a = .ok t) :
    Fenced capability t ∧ History capability shardOf heightOf t := by
  have hsh := shards_step h.shards ho he
  have hsa := h.leases hf
  obtain ⟨hf',hsp⟩ := exec_stepped hf he
  cases hsp with
  | quiet hq => exact ⟨hf',h.quiet hq hsh⟩
  | extended call answers clock hp het =>
    obtain ⟨fromHeight,toHeight,scanned,han,hra⟩ := plan_answer hp (.inl rfl)
    refine ⟨hf',h.extended het (hsa call (running_of_commit he)) ?_ hsh⟩
    rw [hra]
    exact hfi fromHeight toHeight scanned han
  | rewound call answers clock ids hp hre =>
    exact ⟨hf',h.rewound hre (hsa call (running_of_rewind he)) hsh⟩

end

end Ocrypt.CanonicalHistory
