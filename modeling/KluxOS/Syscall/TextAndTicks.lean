import KluxOS.Syscall.DescriptorTable

namespace KluxOS

namespace KernelState

-- the same kernel after more text has been written
def afterText (text : CString) (s : KernelState) : KernelState :=
  { s with terminal := text ++ s.terminal }

section AfterText

variable (w text : CString) (s : KernelState)

theorem afterText_print : (s.afterText w).print text = (s.print text).afterText w :=
  congrArg (fun terminal => { s with terminal := terminal }) (List.append_assoc w s.terminal text)

@[simp] theorem afterText_nodes : (s.afterText w).nodes = s.nodes := rfl

@[simp] theorem afterText_fs_root : (s.afterText w).fs_root = s.fs_root := rfl

@[simp] theorem afterText_fd_table : (s.afterText w).fd_table = s.fd_table := rfl

@[simp] theorem afterText_blocks : (s.afterText w).blocks = s.blocks := rfl

@[simp] theorem afterText_memory : (s.afterText w).memory = s.memory := rfl

@[simp] theorem afterText_tick_count : (s.afterText w).tick_count = s.tick_count := rfl

theorem afterText_setNode (p : NodePtr) (n : FsNode) :
    (s.afterText w).setNode p n = (s.setNode p n).afterText w := rfl

theorem afterText_setFd (fd : Fin 32) (e : FdEntry) :
    (s.afterText w).setFd fd e = (s.setFd fd e).afterText w := rfl

end AfterText

end KernelState

-- what a call leaves when more text has been written before it
def laterBy {α : Type} (w : CString) (r : KernelState × α) : KernelState × α :=
  (r.1.afterText w,r.2)

-- drivers behind the function pointers may print, but do not see what has been printed
structure IgnoresText (hooks : Hooks) : Prop where
  read : ∀ hook w s p offset count, hooks.read hook (s.afterText w) p offset count =
    (hooks.read hook s p offset count).map (laterBy w)
  write : ∀ hook w s p offset count buf, hooks.write hook (s.afterText w) p offset count buf =
    (hooks.write hook s p offset count buf).map (laterBy w)
  open_ : ∀ hook w s p, hooks.open_ hook (s.afterText w) p =
    (hooks.open_ hook s p).map (KernelState.afterText w)
  close : ∀ hook w s p, hooks.close hook (s.afterText w) p =
    (hooks.close hook s p).map (KernelState.afterText w)
  truncate : ∀ hook w s p, hooks.truncate hook (s.afterText w) p =
    (hooks.truncate hook s p).map (KernelState.afterText w)
  finddir : ∀ hook w s p name,
    hooks.finddir hook (s.afterText w) p name = hooks.finddir hook s p name

namespace Syscall

open KernelState Fs

section Files

variable {hooks : Hooks} (alloc : Allocator) (s : KernelState) (w : CString)

theorem allocate_afterText (size : Uint32) :
    allocate alloc (s.afterText w) size = laterBy w (allocate alloc s size) := by
  by_cases h : alloc s.blocks size = 0#32
  · rw [allocate_null alloc s h,allocate_null alloc (s.afterText w) h]
    rfl
  · rw [allocate_block alloc s h,allocate_block alloc (s.afterText w) h]
    rfl

theorem kfree_afterText (ptr : Uint32) : kfree (s.afterText w) ptr = (kfree s ptr).afterText w := by
  rw [kfree,kfree]
  split
  · rfl
  · exact afterText_print w _ s

theorem memcpy_afterText (dest src n : ℕ) :
    memcpy (s.afterText w) dest src n = (memcpy s dest src n).afterText w := rfl

theorem krealloc_afterText (ptr size : Uint32) :
    krealloc alloc (s.afterText w) ptr size = laterBy w (krealloc alloc s ptr size) := by
  simp only [krealloc,allocate_afterText,laterBy,memcpy_afterText,kfree_afterText]
  split_ifs <;> rfl

theorem fsCreateNode_afterText (name : CString) (type : FsNodeType) :
    fsCreateNode alloc (s.afterText w) name type = laterBy w (fsCreateNode alloc s name type) := by
  simp only [fsCreateNode,allocate_afterText,laterBy]
  split_ifs <;> rfl

theorem setNext_afterText (current : NodePtr) (next : Option NodePtr) :
    setNext (s.afterText w) current next = (setNext s current next).map (afterText w) := by
  simp only [setNext,afterText_nodes,Option.bind_eq_bind]
  cases s.nodes[current]? <;> rfl

theorem fsAddNode_afterText (parent child : Option NodePtr) :
    fsAddNode (s.afterText w) parent child = (fsAddNode s parent child).map (afterText w) := by
  cases parent with
  | none => rfl
  | some parent =>
    cases child with
    | none => rfl
    | some child =>
      simp only [fsAddNode,afterText_nodes,Option.bind_eq_bind]
      cases s.nodes[parent]? with
      | none => rfl
      | some dir =>
        simp only [Option.bind_some]
        split_ifs
        · simp only [afterText_print,Option.map_some]
        · cases s.nodes[child]? with
          | none => rfl
          | some node =>
            simp only [Option.bind_some,afterText_setNode,afterText_nodes]
            generalize s.setNode child { node with parent := some parent } = t
            cases t.nodes[parent]? with
            | none => rfl
            | some dir =>
              simp only [Option.bind_some]
              cases dir.children with
              | none => rfl
              | some first =>
                simp only
                cases lastSibling t.nodes t.nodes.length first with
                | none => rfl
                | some current => exact setNext_afterText t w current (some child)

theorem fsFinddir_afterText (h : IgnoresText hooks) (node : Option NodePtr) (name : CString) :
    fsFinddir hooks (s.afterText w) node name = fsFinddir hooks s node name := by
  simp only [fsFinddir,dispatch,afterText_nodes,h.finddir]

theorem walk_afterText (h : IgnoresText hooks) (current : NodePtr) (component : CString) :
    walk hooks (s.afterText w) current component = walk hooks s current component := by
  simp only [walk,fsFinddir_afterText s w h,fsReadlink,afterText_nodes]

theorem resolveLoop_afterText (h : IgnoresText hooks) (current : NodePtr) (path : CString) :
    resolveLoop hooks (s.afterText w) current path = resolveLoop hooks s current path := by
  induction current, path using resolveLoop.induct with
  | case1 current => simp only [resolveLoop]
  | case2 current c path component ih =>
    rw [resolveLoop,resolveLoop,walk_afterText s w h]
    refine Option.bind_congr fun found _ => ?_
    cases found with
    | none => rfl
    | some next => exact ih next

theorem fsResolvePath_afterText (h : IgnoresText hooks) (path : Option CString) :
    fsResolvePath hooks (s.afterText w) path = fsResolvePath hooks s path := by
  simp only [fsResolvePath,afterText_fs_root,resolveLoop_afterText s w h]

theorem fsGetParentDir_afterText (h : IgnoresText hooks) (path : Option CString) :
    fsGetParentDir hooks (s.afterText w) path = fsGetParentDir hooks s path := by
  simp only [fsGetParentDir,afterText_fs_root,fsResolvePath_afterText s w h]

theorem pathError_afterText (message : String) (pathname : CString) :
    pathError (s.afterText w) message pathname = (pathError s message pathname).afterText w :=
  afterText_print w _ s

theorem openNode_afterText (h : IgnoresText hooks) (pathname : CString) (flags : Uint32) :
    openNode hooks alloc (s.afterText w) pathname flags =
      (openNode hooks alloc s pathname flags).map (laterBy w) := by
  simp only [openNode,fsResolvePath_afterText s w h,fsGetParentDir_afterText s w h,
    fsCreateNode_afterText,pathError_afterText,Option.bind_eq_bind]
  cases fsResolvePath hooks s (some pathname) with
  | none => rfl
  | some found =>
    cases found with
    | some node => rfl
    | none =>
      simp only [Option.bind_some]
      split_ifs
      · rfl
      · cases fsGetParentDir hooks s (some pathname) with
        | none => rfl
        | some parent =>
          cases parent with
          | none => rfl
          | some parent =>
            simp only [Option.bind_some]
            obtain ⟨t,created⟩ := fsCreateNode alloc s (fileName pathname) .file
            cases created with
            | none => simp only [laterBy,pathError_afterText,Option.map_some]
            | some node =>
              simp only [laterBy,fsAddNode_afterText]
              cases fsAddNode t (some parent) (some node) with
              | none => rfl
              | some u => simp only [Option.map_some,Option.bind_some,pathError_afterText,laterBy]

theorem truncateNode_afterText (h : IgnoresText hooks) (p : NodePtr) (node : FsNode) :
    truncateNode hooks (s.afterText w) p node =
      (truncateNode hooks s p node).map (afterText w) := by
  rw [truncateNode,truncateNode]
  cases node.truncate with
  | some hook => exact h.truncate hook w s p
  | none =>
    simp only
    split_ifs <;> rfl

theorem openFd_afterText (h : IgnoresText hooks) (p : NodePtr) (flags : Uint32) :
    openFd hooks (s.afterText w) p flags = (openFd hooks s p flags).map (laterBy w) := by
  have hfree : findFreeFd (s.afterText w) = findFreeFd s := rfl
  simp only [openFd,hfree,afterText_nodes,Option.bind_eq_bind]
  cases findFreeFd s with
  | none => simp only [afterText_print,Option.map_some,laterBy]
  | some fd =>
    cases s.nodes[p]? with
    | none => rfl
    | some node =>
      simp only [Option.bind_some,afterText_setFd]
      cases node.open_ with
      | none => rfl
      | some hook =>
        simp only [h.open_]
        cases hooks.open_ hook _ p <;> rfl

theorem syscallOpen_afterText (h : IgnoresText hooks) (pathname : Option CString)
    (flags : Uint32) : syscallOpen hooks alloc (s.afterText w) pathname flags =
      (syscallOpen hooks alloc s pathname flags).map (laterBy w) := by
  cases pathname with
  | none => rfl
  | some pathname =>
    simp only [syscallOpen,openNode_afterText alloc s w h,Option.bind_eq_bind]
    cases openNode hooks alloc s pathname flags with
    | none => rfl
    | some r =>
      obtain ⟨t,found⟩ := r
      cases found with
      | none => rfl
      | some p =>
        simp only [Option.map_some,Option.bind_some,laterBy,afterText_nodes]
        cases t.nodes[p]? with
        | none => rfl
        | some node =>
          simp only [Option.bind_some,pathError_afterText,truncateNode_afterText t w h]
          split_ifs
          · rfl
          · cases truncateNode hooks t p node with
            | none => rfl
            | some u => exact openFd_afterText u w h p flags
          · exact openFd_afterText t w h p flags

theorem syscallReadStdin_afterText (count : Uint32) :
    syscallReadStdin (s.afterText w) count = (syscallReadStdin s count).map (laterBy w) := by
  have hbuffer : (s.afterText w).keyboard_buffer = s.keyboard_buffer := rfl
  have hpos : (s.afterText w).keyboard_buffer_pos = s.keyboard_buffer_pos := rfl
  simp only [syscallReadStdin,hbuffer,hpos,Option.bind_eq_bind]
  generalize (if count > s.keyboard_buffer_pos then s.keyboard_buffer_pos else count) = n
  generalize ((List.range n.toNat).mapM fun (i : ℕ) =>
    CArray.get? s.keyboard_buffer i : Option (List Uint8)) = data
  split_ifs
  · cases data with
    | none => rfl
    | some data =>
      simp only [Option.bind_some]
      generalize (List.foldlM _ s.keyboard_buffer _ : Option (Vector Uint8 256)) = moved
      cases moved <;> rfl
  · cases data <;> rfl
  · rfl

theorem syscallRead_afterText (h : IgnoresText hooks) (fd : ℤ) (count : Uint32) :
    syscallRead hooks (s.afterText w) fd count =
      (syscallRead hooks s fd count).map (laterBy w) := by
  simp only [syscallRead,afterText_print,afterText_fd_table,afterText_nodes,afterText_memory,
    Option.bind_eq_bind]
  cases fdIndex fd with
  | none => rfl
  | some i =>
    simp only [syscallReadStdin_afterText]
    split_ifs
    · rfl
    · rfl
    · cases (s.fd_table.get i).node with
      | none => rfl
      | some p =>
        dsimp only
        cases s.nodes[p]? with
        | none => rfl
        | some node =>
          by_cases hmask : node.mask &&& fsPermRead = 0#32
          · simp only [Option.bind_some,if_pos hmask]
            rfl
          · simp only [Option.bind_some,if_neg hmask]
            cases node.read with
            | some hook =>
              simp only [h.read]
              cases hooks.read hook s p (s.fd_table.get i).offset count <;> rfl
            | none =>
              by_cases hnull : node.contents ≠ 0#32
              · simp only [if_pos hnull]
                rfl
              · simp only [if_neg hnull]
                rfl

theorem resize_afterText (p : NodePtr) (node : FsNode) (size : Uint32) :
    resize alloc (s.afterText w) p node size =
      (resize alloc s p node size).map (laterBy w) := by
  simp only [resize,krealloc_afterText,laterBy]
  split_ifs <;> rfl

theorem finish_afterText (i : Fin 32) (p : NodePtr) (n : Uint32) :
    syscallWrite.finish (s.afterText w) i p n =
      (syscallWrite.finish s i p n).map (laterBy w) := by
  simp only [syscallWrite.finish,afterText_fd_table,afterText_setFd,afterText_nodes,
    Option.bind_eq_bind]
  generalize s.setFd i _ = t
  cases t.nodes[p]? <;> rfl

theorem syscallWrite_afterText (h : IgnoresText hooks) (fd : ℤ) (buf : ℕ → Uint8)
    (count : Uint32) : syscallWrite hooks alloc (s.afterText w) fd buf count =
      (syscallWrite hooks alloc s fd buf count).map (laterBy w) := by
  simp only [syscallWrite,afterText_print,afterText_fd_table,afterText_nodes,krealloc_afterText,
    resize_afterText,Option.bind_eq_bind]
  cases fdIndex fd with
  | none => rfl
  | some i =>
    simp only
    split_ifs
    · rfl
    · rfl
    · cases (s.fd_table.get i).node with
      | none => rfl
      | some p =>
        dsimp only
        cases s.nodes[p]? with
        | none => rfl
        | some node =>
          simp only [Option.bind_some]
          split_ifs
          · rfl
          · cases node.write with
            | some hook =>
              simp only [h.write]
              cases hooks.write hook s p (s.fd_table.get i).offset count buf with
              | none => rfl
              | some r => exact finish_afterText r.1 w i p r.2
            | none =>
              simp only
              cases resize alloc s p node ((s.fd_table.get i).offset + count) with
              | none => simp only [Option.map_none,laterBy,afterText_print,Option.map_some]
              | some r =>
                obtain ⟨t,node'⟩ := r
                exact finish_afterText (memcpyFrom t _ buf count.toNat) w i p count

theorem syscallClose_afterText (h : IgnoresText hooks) (fd : ℤ) :
    syscallClose hooks (s.afterText w) fd = (syscallClose hooks s fd).map (laterBy w) := by
  simp only [syscallClose,afterText_print,afterText_fd_table,afterText_nodes,Option.bind_eq_bind]
  cases fdIndex fd with
  | none => rfl
  | some i =>
    simp only
    split_ifs
    · rfl
    · rfl
    · cases (s.fd_table.get i).node with
      | none => rfl
      | some p =>
        dsimp only
        cases s.nodes[p]? with
        | none => rfl
        | some node =>
          simp only [Option.bind_some]
          cases node.close with
          | none => rfl
          | some hook =>
            simp only [h.close]
            cases hooks.close hook s p <;> rfl

end Files

def SameTicks (s t : KernelState) : Prop := t.tick_count = s.tick_count

section Ticks

variable {hooks : Hooks} {alloc : Allocator} {s t u : KernelState} {fd : ℤ}

theorem allocate_ticks (alloc : Allocator) (s : KernelState) (size : Uint32) :
    SameTicks s (allocate alloc s size).1 := by
  rw [allocate_nodes]
  rfl

theorem kfree_ticks (s : KernelState) (ptr : Uint32) : SameTicks s (kfree s ptr) := by
  rw [kfree]
  split_ifs <;> rfl

theorem krealloc_ticks (ptr size : Uint32) : SameTicks s (krealloc alloc s ptr size).1 := by
  have halloc := allocate_ticks alloc s size
  simp only [krealloc]
  split_ifs
  · exact halloc
  · exact kfree_ticks s ptr
  · exact halloc
  · exact (kfree_ticks _ ptr).trans halloc
  · exact (kfree_ticks _ ptr).trans halloc

theorem resize_ticks {p : NodePtr} {node node' : FsNode} {size : Uint32}
    (h : resize alloc s p node size = some (t,node')) : SameTicks s t := by
  have hkrealloc : SameTicks s (krealloc alloc s node.contents size).1 := krealloc_ticks _ _
  simp only [resize] at h
  split_ifs at h
  · cases h
    exact hkrealloc
  · cases h
    rfl

theorem finish_ticks {i : Fin 32} {p : NodePtr} {n r : Uint32}
    (h : syscallWrite.finish s i p n = some (u,r)) : SameTicks s u := by
  obtain ⟨-,node,-,rfl⟩ := finish_keeps h
  rfl

theorem stdin_ticks {count r : Uint32} {data : List Uint8}
    (h : syscallReadStdin s count = some (u,r,data)) : SameTicks s u := by
  simp only [syscallReadStdin] at h
  generalize (if count > s.keyboard_buffer_pos then s.keyboard_buffer_pos else count) = n at h
  split at h
  · obtain ⟨bytes,-,h⟩ := Option.bind_eq_some_iff.mp h
    split at h
    · obtain ⟨buffer,-,h⟩ := Option.bind_eq_some_iff.mp h
      cases h
      rfl
    · cases h
      rfl
  · cases h
    rfl

theorem read_ticks (hkeep : HooksKeep hooks SameTicks) {count r : Uint32} {data : List Uint8}
    (h : syscallRead hooks s fd count = some (u,r,data)) : SameTicks s u := by
  cases syscallRead_cases h with
  | refused text => rfl
  | stdin _ hstdin => exact stdin_ticks hstdin
  | served _ _ hbody =>
    have ht : SameTicks s _ := readBody_keeps (fun _ => rfl)
      (fun hook => hkeep.read hook _ _ _ _ _ _ _) hbody
    exact ht

theorem write_ticks (hkeep : HooksKeep hooks SameTicks) {buf : ℕ → Uint8} {count r : Uint32}
    (h : syscallWrite hooks alloc s fd buf count = some (u,r)) : SameTicks s u := by
  cases syscallWrite_cases h with
  | printed text r => rfl
  | hooked _ _ _ hhook hfinish =>
    exact (finish_ticks hfinish).trans (hkeep.write _ _ _ _ _ _ _ _ hhook)
  | noSpace _ _ _ _ => exact krealloc_ticks (s := s) _ _
  | stored _ _ _ hresize hfinish =>
    have ht : SameTicks s _ := resize_ticks hresize
    exact (finish_ticks hfinish).trans ht

theorem close_ticks (hkeep : HooksKeep hooks SameTicks) {r : ℤ}
    (h : syscallClose hooks s fd = some (u,r)) : SameTicks s u := by
  cases syscallClose_cases h with
  | refused text => rfl
  | closed _ _ _ ht =>
    rcases ht with rfl | ⟨hook,p,ht⟩
    · rfl
    · have hclosed : SameTicks s _ := hkeep.close hook s p _ ht
      exact hclosed

theorem fsCreateNode_ticks (alloc : Allocator) (s : KernelState) (name : CString)
    (type : FsNodeType) : SameTicks s (fsCreateNode alloc s name type).1 := by
  by_cases haddr : (allocate alloc s fsNodeSize).2 = 0#32
  · rw [fsCreateNode_null alloc s haddr]
    exact allocate_ticks alloc s fsNodeSize
  · rw [fsCreateNode_some alloc s haddr]
    rfl

theorem fsAddNode_ticks {parent child : Option NodePtr} (h : fsAddNode s parent child = some t) :
    SameTicks s t := by
  cases fsAddNode_cases h <;> rfl

theorem openNode_ticks {pathname : CString} {flags : Uint32} {r : Option NodePtr}
    (h : openNode hooks alloc s pathname flags = some (t,r)) : SameTicks s t := by
  obtain ⟨found,-,h⟩ := Option.bind_eq_some_iff.mp h
  cases found with
  | some p =>
    cases h
    rfl
  | none =>
    dsimp only at h
    split at h
    · cases h
      rfl
    · obtain ⟨parent,-,h⟩ := Option.bind_eq_some_iff.mp h
      cases parent with
      | none =>
        cases h
        rfl
      | some parent =>
        have hcreate := fsCreateNode_ticks alloc s (fileName pathname) .file
        dsimp only at h
        split at h
        · next u hu =>
          cases h
          rw [hu] at hcreate
          exact hcreate
        · next u node hu =>
          rw [hu] at hcreate
          obtain ⟨v,hv,h⟩ := Option.bind_eq_some_iff.mp h
          cases h
          exact (fsAddNode_ticks hv).trans hcreate

theorem truncated_ticks (hkeep : HooksKeep hooks SameTicks) {p : NodePtr} {node : FsNode}
    {flags : Uint32} (h : Truncated hooks s p node flags t) : SameTicks s t := by
  cases truncated_cases h with
  | kept => rfl
  | hooked _ ht => exact hkeep.truncate _ _ _ _ ht
  | emptied _ _ _ => rfl

theorem openFd_ticks (hkeep : HooksKeep hooks SameTicks) {p : NodePtr} {flags : Uint32}
    (h : openFd hooks s p flags = some (u,fd)) : SameTicks s u := by
  cases hfree : findFreeFd s with
  | none =>
    rw [openFd_full hfree] at h
    cases h
    rfl
  | some i =>
    simp only [openFd,hfree] at h
    obtain ⟨node,-,h⟩ := Option.bind_eq_some_iff.mp h
    split at h
    · obtain ⟨w,hw,h⟩ := Option.bind_eq_some_iff.mp h
      cases h
      have hopened : SameTicks (s.setFd i _) _ := hkeep.open_ _ _ _ _ hw
      exact hopened
    · cases h
      rfl

theorem open_ticks (hkeep : HooksKeep hooks SameTicks) {pathname : Option CString} {flags : Uint32}
    (h : syscallOpen hooks alloc s pathname flags = some (u,fd)) : SameTicks s u := by
  cases pathname with
  | none =>
    cases h
    rfl
  | some pathname =>
    obtain ⟨⟨t,found⟩,hopen,hrest⟩ := Option.bind_eq_some_iff.mp h
    have ht : SameTicks s t := openNode_ticks hopen
    cases found with
    | none =>
      cases hrest
      exact ht
    | some p =>
      obtain ⟨node,hnode,-⟩ := Option.bind_eq_some_iff.mp hrest
      by_cases htype : node.type = .file
      · rw [syscallOpen_file hopen hnode htype] at h
        obtain ⟨v,hv,h⟩ := Option.bind_eq_some_iff.mp h
        exact ((openFd_ticks hkeep h).trans (truncated_ticks hkeep hv)).trans ht
      · rw [syscallOpen_directory hopen hnode htype] at h
        cases h
        exact ht

end Ticks

end Syscall

end KluxOS
