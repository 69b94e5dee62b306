import KluxOS.Fs.Graph
import KluxOS.Lib.Run
import KluxOS.Syscall.FileCalls

namespace KluxOS.Syscall

open ByteMemory KernelState Fs Run

inductive FdCall where
  | open_ (pathname : Option CString) (flags : Uint32)
  | read (fd : ℤ) (count : Uint32)
  | write (fd : ℤ) (buf : ℕ → Uint8) (count : Uint32)
  | close (fd : ℤ)

def fdStep (hooks : Hooks) (alloc : Allocator) (s : KernelState) : FdCall → Option KernelState
  | .open_ pathname flags => (syscallOpen hooks alloc s pathname flags).map Prod.fst
  | .read fd count => (syscallRead hooks s fd count).map Prod.fst
  | .write fd buf count => (syscallWrite hooks alloc s fd buf count).map Prod.fst
  | .close fd => (syscallClose hooks s fd).map Prod.fst

-- what drivers behind the function pointers leave as it was
structure HooksKeep (hooks : Hooks) (R : KernelState → KernelState → Prop) : Prop where
  read : ∀ hook s p offset count t n data, hooks.read hook s p offset count = some (t,n,data) → R s t
  write : ∀ hook s p offset count buf t n, hooks.write hook s p offset count buf = some (t,n) → R s t
  open_ : ∀ hook s p t, hooks.open_ hook s p = some t → R s t
  close : ∀ hook s p t, hooks.close hook s p = some t → R s t
  truncate : ∀ hook s p t, hooks.truncate hook s p = some t → R s t

def SameTable (s t : KernelState) : Prop := t.fd_table = s.fd_table

def FilesStay (s t : KernelState) : Prop :=
  ∀ (p : NodePtr) (n : FsNode), s.nodes[p]? = some n → n.type = .file →
    ∃ m, t.nodes[p]? = some m ∧ m.type = .file

-- at most the offset of the call's own entry differs
def MovesOffset (s t : KernelState) (fd : ℤ) : Prop :=
  ∀ j : Fin 32, t.fd_table.get j = s.fd_table.get j ∨
    fdIndex fd = some j ∧ ∃ offset, t.fd_table.get j = { s.fd_table.get j with offset := offset }

section Table

variable {hooks : Hooks} {alloc : Allocator} {s t u : KernelState} {fd : ℤ} {i : Fin 32}

theorem readBody_keeps {R : KernelState → KernelState → Prop} (hrefl : ∀ s, R s s)
    {p : NodePtr} {node : FsNode} {offset count r : Uint32} {data : List Uint8}
    (hread : ∀ hook, hooks.read hook s p offset count = some (t,r,data) → R s t)
    (h : readBody hooks s p node offset count = some (t,r,data)) : R s t := by
  rw [readBody] at h
  split at h
  · next hook _ => exact hread hook h
  · split at h
    · cases h
      exact hrefl s
    · cases h
      exact hrefl s

theorem movesOffset_same (h : u.fd_table = s.fd_table) : MovesOffset s u fd :=
  fun j => .inl (by rw [h])

theorem movesOffset_setFd (hfd : fdIndex fd = some i) (ht : t.fd_table = s.fd_table)
    (offset : Uint32) (hu : u.fd_table =
      (t.setFd i { t.fd_table.get i with offset := offset }).fd_table) : MovesOffset s u fd := by
  intro j
  rw [hu,setFd_get,ht]
  by_cases hj : j = i
  · subst hj
    rw [if_pos rfl]
    exact .inr ⟨hfd,offset,rfl⟩
  · rw [if_neg hj]
    exact .inl rfl

theorem stdin_keeps {count r : Uint32} {data : List Uint8}
    (h : syscallReadStdin s count = some (u,r,data)) :
    u.fd_table = s.fd_table ∧ u.nodes = s.nodes := by
  simp only [syscallReadStdin] at h
  generalize (if count > s.keyboard_buffer_pos then s.keyboard_buffer_pos else count) = n at h
  split at h
  · obtain ⟨bytes,-,h⟩ := Option.bind_eq_some_iff.mp h
    split at h
    · obtain ⟨buffer,-,h⟩ := Option.bind_eq_some_iff.mp h
      cases h
      exact ⟨rfl,rfl⟩
    · cases h
      exact ⟨rfl,rfl⟩
  · cases h
    exact ⟨rfl,rfl⟩

theorem resize_keeps {p : NodePtr} {node node' : FsNode} {size : Uint32}
    (h : resize alloc s p node size = some (t,node')) : t.fd_table = s.fd_table ∧
      (¬ size > node.length ∧ t = s ∧ node' = node ∨
        size > node.length ∧ node' = grownNode node node'.contents size ∧
          t.nodes = s.nodes.set p node') := by
  by_cases hgrow : size > node.length
  · by_cases hnull : alloc s.blocks size = 0#32
    · rw [resize_null hgrow hnull] at h
      cases h
    · obtain ⟨v,hv,hnodes,-,hfds,-⟩ := resize_block (p := p) hgrow hnull
      rw [hv] at h
      cases h
      exact ⟨hfds,.inr ⟨hgrow,rfl,hnodes⟩⟩
  · rw [resize_keep hgrow] at h
    cases h
    exact ⟨rfl,.inl ⟨hgrow,rfl,rfl⟩⟩

theorem resize_found {p : NodePtr} {node node' : FsNode} {size : Uint32}
    (hfound : s.nodes[p]? = some node) (h : resize alloc s p node size = some (t,node')) :
    t.nodes[p]? = some node' := by
  rcases (resize_keeps h).2 with ⟨-,rfl,rfl⟩ | ⟨-,-,hnodes⟩
  · exact hfound
  · rw [hnodes]
    exact setNode_self hfound

theorem finish_keeps {p : NodePtr} {n r : Uint32}
    (h : syscallWrite.finish s i p n = some (u,r)) : r = n ∧ ∃ node, s.nodes[p]? = some node ∧
      u = (s.setFd i { s.fd_table.get i with offset := (s.fd_table.get i).offset + n }).setNode p
        { node with modified_time := s.tick_count } := by
  obtain ⟨node,hnode,h⟩ := Option.bind_eq_some_iff.mp h
  cases h
  exact ⟨rfl,node,hnode,rfl⟩

theorem allocate_keeps (alloc : Allocator) (s : KernelState) (size : Uint32) :
    (allocate alloc s size).1.fd_table = s.fd_table ∧ (allocate alloc s size).1.nodes = s.nodes := by
  rw [allocate_nodes]
  exact ⟨rfl,rfl⟩

theorem kfree_keeps (s : KernelState) (ptr : Uint32) : (kfree s ptr).fd_table = s.fd_table ∧
    (kfree s ptr).nodes = s.nodes := by
  rw [kfree]
  split_ifs <;> exact ⟨rfl,rfl⟩

theorem krealloc_keeps (ptr size : Uint32) :
    (krealloc alloc s ptr size).1.fd_table = s.fd_table ∧
      (krealloc alloc s ptr size).1.nodes = s.nodes := by
  have halloc := allocate_keeps alloc s size
  by_cases hptr : ptr = 0#32
  · rw [krealloc,if_pos hptr]
    exact halloc
  by_cases hsize : size = 0#32
  · rw [krealloc,if_neg hptr,if_pos hsize]
    exact kfree_keeps s ptr
  by_cases hnull : (allocate alloc s size).2 = 0#32
  · simp only [krealloc,if_neg hptr,if_neg hsize,if_pos hnull]
    exact halloc
  · simp only [krealloc,if_neg hptr,if_neg hsize,if_neg hnull]
    obtain ⟨hfds,hnodes⟩ := kfree_keeps (memcpy (allocate alloc s size).1
      (allocate alloc s size).2.toNat ptr.toNat (if size.toNat < 256 then size.toNat else 256)) ptr
    exact ⟨hfds.trans halloc.1,hnodes.trans halloc.2⟩

theorem read_movesOffset (hkeep : HooksKeep hooks SameTable) {count r : Uint32}
    {data : List Uint8} (h : syscallRead hooks s fd count = some (u,r,data)) :
    MovesOffset s u fd := by
  cases syscallRead_cases h with
  | refused text => exact movesOffset_same rfl
  | stdin _ hstdin => exact movesOffset_same (stdin_keeps hstdin).1
  | served hfile _ hbody =>
    have ht : SameTable s _ := readBody_keeps (fun _ => rfl)
      (fun hook => hkeep.read hook _ _ _ _ _ _ _) hbody
    exact movesOffset_setFd hfile.index ht _ rfl

theorem write_movesOffset (hkeep : HooksKeep hooks SameTable) {buf : ℕ → Uint8}
    {count r : Uint32} (h : syscallWrite hooks alloc s fd buf count = some (u,r)) :
    MovesOffset s u fd := by
  cases syscallWrite_cases h with
  | printed text r => exact movesOffset_same rfl
  | hooked hfile _ _ hhook hfinish =>
    obtain ⟨-,node,-,rfl⟩ := finish_keeps hfinish
    exact movesOffset_setFd hfile.index (hkeep.write _ _ _ _ _ _ _ _ hhook) _ rfl
  | noSpace _ _ _ _ => exact movesOffset_same (krealloc_keeps _ _).1
  | stored hfile _ _ hresize hfinish =>
    obtain ⟨-,node,-,rfl⟩ := finish_keeps hfinish
    exact movesOffset_setFd hfile.index (resize_keeps hresize).1 _ rfl

theorem close_table (hkeep : HooksKeep hooks SameTable) {r : ℤ}
    (h : syscallClose hooks s fd = some (u,r)) : r = -1 ∧ u.fd_table = s.fd_table ∨
      r = 0 ∧ ∃ i, fdIndex fd = some i ∧ 3 ≤ i.val ∧ (s.fd_table.get i).used = true ∧
        u.fd_table = (s.setFd i ⟨false,none,0#32⟩).fd_table := by
  cases syscallClose_cases h with
  | refused text => exact .inl ⟨rfl,rfl⟩
  | @closed i t hfd hi hused ht =>
    have hsame : t.fd_table = s.fd_table := by
      rcases ht with rfl | ⟨hook,p,ht⟩
      · rfl
      · exact hkeep.close hook s p t ht
    exact .inr ⟨rfl,i,hfd,hi,hused,congrArg (fun a => a.set i ⟨false,none,0#32⟩ i.isLt) hsame⟩

theorem truncated_table (hkeep : HooksKeep hooks SameTable) {t v : KernelState} {p : NodePtr}
    {node : FsNode} {flags : Uint32} (h : Truncated hooks t p node flags v) :
    v.fd_table = t.fd_table := by
  rw [Truncated] at h
  split at h
  · exact truncateNode_fd_table hkeep.truncate h
  · cases h
    rfl

end Table

section Files

variable {hooks : Hooks} {alloc : Allocator} {s t u : KernelState} {fd : ℤ} {i : Fin 32}

theorem filesStay_same (h : t.nodes = s.nodes) : FilesStay s t :=
  fun _ n hn htype => ⟨n,h ▸ hn,htype⟩

theorem filesStay_trans (h : FilesStay s t) (h' : FilesStay t u) : FilesStay s u := by
  intro p n hn htype
  obtain ⟨m,hm,hfile⟩ := h p n hn htype
  exact h' p m hm hfile

theorem filesStay_congr (h : FilesStay s t) (hnodes : u.nodes = t.nodes) : FilesStay s u :=
  filesStay_trans h (filesStay_same hnodes)

theorem filesStay_set {p : NodePtr} {n n' : FsNode} (hn : s.nodes[p]? = some n)
    (ht : t.nodes = s.nodes.set p n') (htype : n'.type = n.type) : FilesStay s t := by
  intro q m hm hfile
  rw [ht,← setNode_nodes s p n']
  by_cases hq : q = p
  · subst hq
    obtain rfl := Option.some.inj (hn.symm.trans hm)
    exact ⟨n',setNode_self hn,htype.trans hfile⟩
  · exact ⟨m,(setNode_other hq).trans hm,hfile⟩

theorem Relinked.filesStay (h : Relinked s t) : FilesStay s t := by
  intro p n hn htype
  obtain ⟨m,hm,hcore⟩ := h.nodes p n hn
  exact ⟨m,hm,(congrArg FsNode.type hcore).trans htype⟩

theorem finish_filesStay {p : NodePtr} {n r : Uint32}
    (h : syscallWrite.finish s i p n = some (u,r)) : FilesStay s u := by
  obtain ⟨-,node,hnode,rfl⟩ := finish_keeps h
  exact filesStay_set hnode rfl rfl

theorem resize_filesStay {p : NodePtr} {node node' : FsNode} {size : Uint32}
    (hnode : s.nodes[p]? = some node) (h : resize alloc s p node size = some (t,node')) :
    FilesStay s t := by
  rcases (resize_keeps h).2 with ⟨-,rfl,-⟩ | ⟨-,hgrown,hnodes⟩
  · exact filesStay_same rfl
  · exact filesStay_set hnode hnodes (by rw [hgrown]; rfl)

theorem truncated_filesStay (hfiles : HooksKeep hooks FilesStay) {t v : KernelState} {p : NodePtr}
    {node : FsNode} {flags : Uint32} (hnode : t.nodes[p]? = some node)
    (h : Truncated hooks t p node flags v) : FilesStay t v := by
  cases truncated_cases h with
  | kept => exact filesStay_same rfl
  | hooked _ hv => exact hfiles.truncate _ _ _ _ hv
  | emptied _ _ _ => exact filesStay_set hnode rfl rfl

theorem open_filesStay (hfiles : HooksKeep hooks FilesStay) {pathname : Option CString}
    {flags : Uint32} (h : syscallOpen hooks alloc s pathname flags = some (u,fd)) :
    FilesStay s u := by
  cases syscallOpen_cases h with
  | refused ht => exact ht.filesStay
  | full text _ hopen hnode _ hv =>
    exact filesStay_congr (filesStay_trans (openNode_relinked hopen).filesStay
      (truncated_filesStay hfiles hnode hv)) rfl
  | opened _ hopen hnode _ hv _ _ hu =>
    have hbefore := filesStay_trans (openNode_relinked hopen).filesStay
      (truncated_filesStay hfiles hnode hv)
    rcases hu with rfl | ⟨hook,hu⟩
    · exact filesStay_congr hbefore rfl
    · refine filesStay_trans (filesStay_congr hbefore ?_) (hfiles.open_ _ _ _ _ hu)
      rfl

theorem read_filesStay (hfiles : HooksKeep hooks FilesStay) {count r : Uint32} {data : List Uint8}
    (h : syscallRead hooks s fd count = some (u,r,data)) : FilesStay s u := by
  cases syscallRead_cases h with
  | refused text => exact filesStay_same rfl
  | stdin _ hstdin => exact filesStay_same (stdin_keeps hstdin).2
  | served _ _ hbody =>
    exact filesStay_congr (readBody_keeps (fun _ => filesStay_same rfl)
      (fun hook => hfiles.read hook _ _ _ _ _ _ _) hbody) rfl

theorem write_filesStay (hfiles : HooksKeep hooks FilesStay) {buf : ℕ → Uint8} {count r : Uint32}
    (h : syscallWrite hooks alloc s fd buf count = some (u,r)) : FilesStay s u := by
  cases syscallWrite_cases h with
  | printed text r => exact filesStay_same rfl
  | hooked _ _ _ hhook hfinish =>
    exact filesStay_trans (hfiles.write _ _ _ _ _ _ _ _ hhook) (finish_filesStay hfinish)
  | noSpace _ _ _ _ => exact filesStay_same (krealloc_keeps _ _).2
  | stored hfile _ _ hresize hfinish =>
    refine filesStay_trans (filesStay_congr (resize_filesStay hfile.found hresize) ?_)
      (finish_filesStay hfinish)
    rfl

theorem close_filesStay (hfiles : HooksKeep hooks FilesStay) {r : ℤ}
    (h : syscallClose hooks s fd = some (u,r)) : FilesStay s u := by
  cases syscallClose_cases h with
  | refused text => exact filesStay_same rfl
  | closed _ _ _ ht =>
    rcases ht with rfl | ⟨hook,p,ht⟩
    · exact filesStay_same rfl
    · exact filesStay_congr (hfiles.close hook s p _ ht) rfl

theorem fdStep_filesStay (hfiles : HooksKeep hooks FilesStay) {c : FdCall}
    (h : fdStep hooks alloc s c = some u) : FilesStay s u := by
  cases c with
  | open_ pathname flags =>
    obtain ⟨⟨u,fd⟩,hcall,rfl⟩ := Option.map_eq_some_iff.mp h
    exact open_filesStay hfiles hcall
  | read fd count =>
    obtain ⟨⟨u,n,data⟩,hcall,rfl⟩ := Option.map_eq_some_iff.mp h
    exact read_filesStay hfiles hcall
  | write fd buf count =>
    obtain ⟨⟨u,n⟩,hcall,rfl⟩ := Option.map_eq_some_iff.mp h
    exact write_filesStay hfiles hcall
  | close fd =>
    obtain ⟨⟨u,r⟩,hcall,rfl⟩ := Option.map_eq_some_iff.mp h
    exact close_filesStay hfiles hcall

theorem open_table (hkeep : HooksKeep hooks SameTable) {pathname : Option CString}
    {flags : Uint32} (h : syscallOpen hooks alloc s pathname flags = some (u,fd)) :
    fd = -1 ∧ u.fd_table = s.fd_table ∨ ∃ i p offset, findFreeFd s = some i ∧ fd = i.val ∧
      u.fd_table = (s.setFd i ⟨true,some p,offset⟩).fd_table ∧
        (HooksKeep hooks FilesStay → ∃ n, u.nodes[p]? = some n ∧ n.type = .file) := by
  cases syscallOpen_cases h with
  | refused ht => exact .inl ⟨rfl,ht.fd_table⟩
  | full text _ hopen _ _ hv =>
    exact .inl ⟨rfl,(truncated_table hkeep hv).trans (openNode_relinked hopen).fd_table⟩
  | @opened path t v u p node node' i _ hopen hnode htype hv hfree _ hu =>
    have hsame := (truncated_table hkeep hv).trans (openNode_relinked hopen).fd_table
    have hset : ∀ e, (v.setFd i e).fd_table = (s.setFd i e).fd_table := fun e =>
      congrArg (fun a => a.set i e i.isLt) hsame
    refine .inr ⟨i,p,(openEntry p node' flags).offset,(findFreeFd_congr hsame).symm.trans hfree,
      rfl,?_,fun hfiles => ?_⟩
    · rcases hu with rfl | ⟨hook,hu⟩
      · exact hset _
      · exact (hkeep.open_ hook _ p _ hu).trans (hset _)
    · obtain ⟨n,hn,hfile⟩ := truncated_filesStay hfiles hnode hv p node hnode htype
      rcases hu with rfl | ⟨hook,hu⟩
      · exact ⟨n,hn,hfile⟩
      · exact hfiles.open_ hook _ p _ hu p n hn hfile

end Files

-- every used entry lies past the standard descriptors and names a file
def Integrity (hooks : Hooks) (s : KernelState) : Prop :=
  ∀ i : Fin 32, (s.fd_table.get i).used = true → 3 ≤ i.val ∧ ∃ p,
    (s.fd_table.get i).node = some p ∧
      (HooksKeep hooks FilesStay → ∃ n, s.nodes[p]? = some n ∧ n.type = .file)

-- the smallest unused index from 3 on
def SmallestFree (s : KernelState) (i : Fin 32) : Prop :=
  3 ≤ i.val ∧ (s.fd_table.get i).used = false ∧
    ∀ j : Fin 32, 3 ≤ j.val → j < i → (s.fd_table.get j).used = true

-- every call on fd returns its error value
def Closed (hooks : Hooks) (alloc : Allocator) (s : KernelState) (fd : ℤ) : Prop :=
  (∀ count, ∃ t, syscallRead hooks s fd count = some (t,failed,[])) ∧
  (∀ buf count, ∃ t, syscallWrite hooks alloc s fd buf count = some (t,failed)) ∧
  ∃ t, syscallClose hooks s fd = some (t,-1)

def NotOpened (hooks : Hooks) (alloc : Allocator) (fd : ℤ) (s : KernelState) (c : FdCall) : Prop :=
  ∀ pathname flags u, c = .open_ pathname flags →
    syscallOpen hooks alloc s pathname flags ≠ some (u,fd)

structure TableIntegrity (hooks : Hooks) (alloc : Allocator) (t : KernelState) : Prop where
  entries : ∀ i : Fin 32, (t.fd_table.get i).used = true → 3 ≤ i.val ∧ ∃ p,
    (t.fd_table.get i).node = some p ∧
      (HooksKeep hooks FilesStay → ∃ n, t.nodes[p]? = some n ∧ n.type = .file)
  opens : ∀ pathname flags u fd, syscallOpen hooks alloc t pathname flags = some (u,fd) → 0 ≤ fd →
    ∃ i, fdIndex fd = some i ∧ SmallestFree t i ∧ (u.fd_table.get i).used = true ∧
      ∀ j, j ≠ i → u.fd_table.get j = t.fd_table.get j
  closes : ∀ fd u, syscallClose hooks t fd = some (u,0) → ∃ i, fdIndex fd = some i ∧
    (t.fd_table.get i).used = true ∧ (u.fd_table.get i).used = false ∧
    (∀ j, j ≠ i → u.fd_table.get j = t.fd_table.get j) ∧
    ∀ later v, Every (fdStep hooks alloc) (fun s c _ => NotOpened hooks alloc fd s c) u later →
      run (fdStep hooks alloc) u later = some v → Closed hooks alloc v fd
  reads : ∀ fd count u n data, syscallRead hooks t fd count = some (u,n,data) → MovesOffset t u fd
  writes : ∀ fd buf count u n, syscallWrite hooks alloc t fd buf count = some (u,n) →
    MovesOffset t u fd

section Integrity

variable {hooks : Hooks} {alloc : Allocator} {s t u : KernelState} {fd : ℤ} {i : Fin 32}

theorem findFreeFd_smallest (h : findFreeFd s = some i) : SmallestFree s i := by
  refine ⟨(findFreeFd_some h).1,(findFreeFd_some h).2,fun j hj hlt => ?_⟩
  obtain ⟨-,k,hk,hik,hbefore⟩ := List.find?_eq_some_iff_getElem.mp h
  have hkval : k = i.val := by
    rw [← hik]
    simp
  have hnot := hbefore j.val (by omega)
  simpa [hj] using hnot

theorem Integrity.of_entries (h : Integrity hooks s)
    (hfiles : HooksKeep hooks FilesStay → FilesStay s u)
    (hentries : ∀ j : Fin 32, (u.fd_table.get j).used = true →
      (s.fd_table.get j).used = true ∧ (u.fd_table.get j).node = (s.fd_table.get j).node ∨
        3 ≤ j.val ∧ ∃ p, (u.fd_table.get j).node = some p ∧
          (HooksKeep hooks FilesStay → ∃ n, u.nodes[p]? = some n ∧ n.type = .file)) :
    Integrity hooks u := by
  intro j hj
  rcases hentries j hj with ⟨hused,hnode⟩ | hnew
  · obtain ⟨hj3,p,hp,hfile⟩ := h j hused
    refine ⟨hj3,p,hnode.trans hp,fun hstay => ?_⟩
    obtain ⟨n,hn,htype⟩ := hfile hstay
    exact hfiles hstay p n hn htype
  · exact hnew

theorem Integrity.setEntry (h : Integrity hooks s)
    (hfiles : HooksKeep hooks FilesStay → FilesStay s u) {e : FdEntry}
    (hset : u.fd_table = (s.setFd i e).fd_table)
    (he : e.used = true → 3 ≤ i.val ∧ ∃ p, e.node = some p ∧
      (HooksKeep hooks FilesStay → ∃ n, u.nodes[p]? = some n ∧ n.type = .file)) :
    Integrity hooks u := by
  refine h.of_entries hfiles fun j hj => ?_
  rw [hset,setFd_get] at hj ⊢
  by_cases hji : j = i
  · rw [if_pos hji] at hj ⊢
    exact .inr (hji ▸ he hj)
  · rw [if_neg hji] at hj ⊢
    exact .inl ⟨hj,rfl⟩

theorem MovesOffset.entry (h : MovesOffset s u fd) (j : Fin 32) :
    (u.fd_table.get j).used = (s.fd_table.get j).used ∧
      (u.fd_table.get j).node = (s.fd_table.get j).node := by
  rcases h j with heq | ⟨-,offset,heq⟩ <;> rw [heq] <;> exact ⟨rfl,rfl⟩

theorem fdStep_integrity (hkeep : HooksKeep hooks SameTable) {c : FdCall} (hs : Integrity hooks s)
    (h : fdStep hooks alloc s c = some u) : Integrity hooks u := by
  have hfiles : HooksKeep hooks FilesStay → FilesStay s u := fun hstay => fdStep_filesStay hstay h
  have hentries : (∀ j : Fin 32, (u.fd_table.get j).used = (s.fd_table.get j).used ∧
      (u.fd_table.get j).node = (s.fd_table.get j).node) → Integrity hooks u := fun hsame =>
    hs.of_entries hfiles fun j hj => .inl ⟨(hsame j).1.symm.trans hj,(hsame j).2⟩
  cases c with
  | open_ pathname flags =>
    obtain ⟨⟨u,fd⟩,hcall,rfl⟩ := Option.map_eq_some_iff.mp h
    rcases open_table hkeep hcall with ⟨-,hsame⟩ | ⟨i,p,offset,hfree,-,hset,hfile⟩
    · exact hentries fun j => by rw [hsame]; exact ⟨rfl,rfl⟩
    · exact hs.setEntry hfiles hset fun _ => ⟨(findFreeFd_some hfree).1,p,rfl,hfile⟩
  | read fd count =>
    obtain ⟨⟨u,n,data⟩,hcall,rfl⟩ := Option.map_eq_some_iff.mp h
    exact hentries (read_movesOffset hkeep hcall).entry
  | write fd buf count =>
    obtain ⟨⟨u,n⟩,hcall,rfl⟩ := Option.map_eq_some_iff.mp h
    exact hentries (write_movesOffset hkeep hcall).entry
  | close fd =>
    obtain ⟨⟨u,r⟩,hcall,rfl⟩ := Option.map_eq_some_iff.mp h
    rcases close_table hkeep hcall with ⟨-,hsame⟩ | ⟨-,i,-,-,-,hset⟩
    · exact hentries fun j => by rw [hsame]; exact ⟨rfl,rfl⟩
    · exact hs.setEntry hfiles hset fun hused => nomatch hused

theorem unused_closed (hfd : fdIndex fd = some i) (hi : 3 ≤ i.val)
    (hused : (s.fd_table.get i).used = false) : Closed hooks alloc s fd := by
  have hout := not_standardOut hi
  have hstd : ¬ i.val ≤ 2 := by omega
  refine ⟨fun count => ⟨s.print "ERROR: Invalid file descriptor\n".toList,?_⟩,
    fun buf count => ⟨s.print "ERROR: Unused file descriptor\n".toList,?_⟩,
    s.print "ERROR: Descriptor is already closed\n".toList,?_⟩
  · simp only [syscallRead,hfd,hused,if_true]
  · simp only [syscallWrite,hfd,hused,if_neg hout,if_true]
  · simp only [syscallClose,hfd,hused,if_neg hstd,if_true]

theorem fdIndex_eq (h : fdIndex fd = some i) : fd = i.val := by
  rw [fdIndex] at h
  split at h
  · next hfd =>
    cases h
    exact (Int.toNat_of_nonneg hfd.1).symm
  · cases h

theorem fdIndex_val (i : Fin 32) : fdIndex i.val = some i := by
  rw [fdIndex,dif_pos (by unfold maxFd; omega)]
  rfl

def Unused (i : Fin 32) (s : KernelState) : Prop := (s.fd_table.get i).used = false

theorem stays_unused (hkeep : HooksKeep hooks SameTable) {c : FdCall}
    (hfd : fdIndex fd = some i) (hused : Unused i s) (hnot : NotOpened hooks alloc fd s c)
    (h : fdStep hooks alloc s c = some u) : Unused i u := by
  rw [Unused] at hused ⊢
  cases c with
  | open_ pathname flags =>
    obtain ⟨⟨u,fd'⟩,hcall,rfl⟩ := Option.map_eq_some_iff.mp h
    rcases open_table hkeep hcall with ⟨-,hsame⟩ | ⟨k,p,offset,-,hk,hset,-⟩
    · dsimp only
      rw [hsame]
      exact hused
    · dsimp only
      rw [hset,setFd_get]
      by_cases hik : i = k
      · subst hik
        exact absurd ((fdIndex_eq hfd).trans hk.symm ▸ hcall) (hnot pathname flags u rfl)
      · rw [if_neg hik]
        exact hused
  | read fd count =>
    obtain ⟨⟨u,n,data⟩,hcall,rfl⟩ := Option.map_eq_some_iff.mp h
    exact ((read_movesOffset hkeep hcall).entry i).1.trans hused
  | write fd buf count =>
    obtain ⟨⟨u,n⟩,hcall,rfl⟩ := Option.map_eq_some_iff.mp h
    exact ((write_movesOffset hkeep hcall).entry i).1.trans hused
  | close fd =>
    obtain ⟨⟨u,r⟩,hcall,rfl⟩ := Option.map_eq_some_iff.mp h
    rcases close_table hkeep hcall with ⟨-,hsame⟩ | ⟨-,k,-,-,-,hset⟩
    · dsimp only
      rw [hsame]
      exact hused
    · dsimp only
      rw [hset,setFd_get]
      split
      · rfl
      · exact hused

theorem zeroed_entry (hzero : s.fd_table = Vector.replicate 32 ⟨false,none,0#32⟩) (i : Fin 32) :
    s.fd_table.get i = ⟨false,none,0#32⟩ := by
  rw [hzero]
  exact Vector.getElem_replicate i.isLt

theorem zeroed_unopened (hzero : s.fd_table = Vector.replicate 32 ⟨false,none,0#32⟩) (i : Fin 32)
    (p : NodePtr) : ¬ Opens (s.fd_table.get i) p := by
  rw [zeroed_entry hzero i]
  exact fun hopens => nomatch hopens.1

theorem descriptor_table_integrity (hkeep : HooksKeep hooks SameTable)
    (hzero : s.fd_table = Vector.replicate 32 ⟨false,none,0#32⟩) {calls : List FdCall}
    (hrun : run (fdStep hooks alloc) s calls = some t) : TableIntegrity hooks alloc t := by
  have hinit : Integrity hooks s := fun i hi => by
    rw [zeroed_entry hzero i] at hi
    cases hi
  have hother : ∀ {a b : KernelState} {i : Fin 32} {e}, a.fd_table = (b.setFd i e).fd_table →
      ∀ j, j ≠ i → a.fd_table.get j = b.fd_table.get j := fun hset j hj => by
    rw [hset,setFd_get,if_neg hj]
  refine ⟨run_invariant hinit (fun s c u hs h => fdStep_integrity hkeep hs h) hrun,?_,?_,
    fun fd count u n data => read_movesOffset hkeep,fun fd buf count u n => write_movesOffset hkeep⟩
  · intro pathname flags u fd hcall hfd
    rcases open_table hkeep hcall with ⟨rfl,-⟩ | ⟨i,p,offset,hfree,rfl,hset,-⟩
    · exact absurd hfd (by decide)
    · refine ⟨i,fdIndex_val i,findFreeFd_smallest hfree,?_,hother hset⟩
      rw [hset,setFd_get,if_pos rfl]
  · intro fd u hcall
    rcases close_table hkeep hcall with ⟨h,-⟩ | ⟨-,i,hfd,hi,hused,hset⟩
    · cases h
    · have hfree : Unused i u := by
        rw [Unused,hset,setFd_get,if_pos rfl]
      refine ⟨i,hfd,hused,hfree,hother hset,fun later v hnot hlater => ?_⟩
      have hv : Unused i v := hnot.invariant hfree
        (fun s c w hs hn hw => stays_unused hkeep hfd hs hn hw) hlater
      exact unused_closed hfd hi hv

end Integrity

section Example

theorem treeHooks_keep {R : KernelState → KernelState → Prop} (hrefl : ∀ s, R s s) :
    HooksKeep treeHooks R where
  read := fun _ _ _ _ _ _ _ _ h => by cases h
  write := fun _ _ _ _ _ _ _ _ h => by cases h
  open_ := fun _ s _ _ h => by cases h; exact hrefl s
  close := fun _ s _ _ h => by cases h; exact hrefl s
  truncate := fun _ _ _ _ h => by cases h

-- /a is a plain file
def plainRoot : KernelState :=
  { rootWithFile with
    nodes := [{ createdNode KernelState.boot ['/'] .directory with children := some 1 },
      { createdNode KernelState.boot ['a'] .file with
        parent := some 0
        mask := 3#32
        read := none
        write := none
        open_ := none
        close := none }] }

theorem plainRoot_tree : Tree plainRoot :=
  SameTree.tree (s := rootWithFile) ⟨rfl,rfl⟩ rootWithFile_tree

theorem plainRoot_path {t : KernelState} (h : SameTree plainRoot t) :
    fsResolvePath treeHooks t (some ['a']) = some (some 1) := by
  rw [fsResolvePath_graph (h.tree plainRoot_tree) treeHooks_exact,h.resolve_eq]
  decide

theorem plainRoot_opens {t : KernelState} (h : SameTree plainRoot t) {node : FsNode}
    (hnode : t.nodes[1]? = some node) (htype : node.type = .file) {flags : Uint32}
    (hflags : flags &&& oTrunc = 0#32) {i : Fin 32} (hfree : findFreeFd t = some i)
    (alloc : Allocator) : syscallOpen treeHooks alloc t (some ['a']) flags =
      some (t.setFd i (openEntry 1 node flags),(i.val : ℤ)) :=
  syscallOpen_opens treeHooks_open (plainRoot_path h) hnode htype hflags hfree

theorem descriptor_table_integrity_open : ∃ t,
    run (fdStep treeHooks constantAllocator) plainRoot [.open_ (some ['a']) oRdwr] = some t ∧
    (t.fd_table.get 3).used = true ∧ TableIntegrity treeHooks constantAllocator t := by
  have hcall := plainRoot_opens (SameTree.refl plainRoot) rfl rfl
    (show oRdwr &&& oTrunc = 0#32 by decide) (show findFreeFd plainRoot = some 3 by decide)
    constantAllocator
  have hrun : run (fdStep treeHooks constantAllocator) plainRoot
      [.open_ (some ['a']) oRdwr] = some _ :=
    Option.bind_eq_some_iff.mpr ⟨_,Option.map_eq_some_iff.mpr ⟨_,hcall,rfl⟩,rfl⟩
  refine ⟨_,hrun,?_,descriptor_table_integrity (treeHooks_keep fun _ => rfl) rfl hrun⟩
  rw [setFd_get,if_pos rfl]
  rfl

end Example

end KluxOS.Syscall
