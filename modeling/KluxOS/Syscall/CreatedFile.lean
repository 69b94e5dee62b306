import KluxOS.Syscall.Create
import KluxOS.Syscall.DescriptorTable

namespace KluxOS.Syscall

open KernelState Fs

-- a write of the whole buffer succeeds, and the reopened file reads back as the buffer
def Usable (hooks : Hooks) (alloc : Allocator) (s : KernelState) (fd : ℤ) (pathname : CString)
    (buf : ℕ → Uint8) (n : Uint32) : Prop :=
  ∃ t u v w fd', syscallWrite hooks alloc s fd buf n = some (t,n) ∧
    syscallClose hooks t fd = some (u,0) ∧
    syscallOpen hooks alloc u (some pathname) oRdwr = some (v,fd') ∧
    syscallRead hooks v fd' n = some (w,n,(List.range n.toNat).map buf)

section Created

variable {hooks : Hooks} {alloc : Allocator} {s t : KernelState} {pathname : CString} {flags : Uint32}
  {fd : ℤ}

theorem created_descriptor (hopen : ∀ hook s p t, hooks.open_ hook s p = some t → t = s)
    (hnew : fsResolvePath hooks s (some pathname) = some none) (htrunc : flags &&& oTrunc = 0#32)
    (hcall : syscallOpen hooks alloc s (some pathname) flags = some (t,fd)) (hfd : 0 ≤ fd) :
    ∃ i node, 3 ≤ i.val ∧ OnFile t fd i s.nodes.length node ∧
      core node = core (createdNode s (fileName pathname) .file) := by
  cases syscallOpen_cases hcall with
  | refused _ => exact absurd hfd (by decide)
  | full text _ _ _ _ _ => exact absurd hfd (by decide)
  | @opened path u v t p node node' i hpath hnode hfound htype hv hfree hfound' ht =>
    cases hpath
    rcases openNode_origin hnode with ⟨hresolve,-⟩ | ⟨rfl,node'',hfound'',hcore⟩
    · cases hnew.symm.trans hresolve
    · rw [Truncated,if_neg (not_not.mpr htrunc)] at hv
      cases hv
      have hsame : t = u.setFd i (openEntry s.nodes.length node' flags) := by
        rcases ht with rfl | ⟨hook,ht⟩
        · rfl
        · exact hopen _ _ _ _ ht
      refine ⟨i,node'',(findFreeFd_some hfree).1,⟨fdIndex_val i,?_,?_⟩,hcore⟩
      · rw [hsame,setFd_get,if_pos rfl]
        exact ⟨rfl,rfl⟩
      · rw [hsame]
        exact hfound''

-- a created file has the mask FS_PERM_READ, so every write is refused
theorem created_write_refused (hopen : ∀ hook s p t, hooks.open_ hook s p = some t → t = s)
    (hnew : fsResolvePath hooks s (some pathname) = some none) (htrunc : flags &&& oTrunc = 0#32)
    (hcall : syscallOpen hooks alloc s (some pathname) flags = some (t,fd)) (hfd : 0 ≤ fd)
    (buf : ℕ → Uint8) (n : Uint32) : syscallWrite hooks alloc t fd buf n =
      some (t.print "ERROR: Write permission denied\n".toList,failed) := by
  obtain ⟨i,node,hi,hfile,hcore⟩ := created_descriptor hopen hnew htrunc hcall hfd
  have hmask : node.mask = fsPermRead := (congrArg FsNode.mask hcore :)
  refine syscallWrite_denied hfile (not_standardOut hi) ?_
  rw [hmask]
  decide

theorem created_file_unusable (hopen : ∀ hook s p t, hooks.open_ hook s p = some t → t = s)
    (hnew : fsResolvePath hooks s (some pathname) = some none)
    (hcall : syscallOpen hooks alloc s (some pathname) (oCreat ||| oRdwr) = some (t,fd))
    (hfd : 0 ≤ fd) (buf : ℕ → Uint8) (n : Uint32) (hn : n.toNat ≤ 256) :
    (∃ u, syscallWrite hooks alloc t fd buf n = some (u,failed)) ∧
      ¬ Usable hooks alloc t fd pathname buf n := by
  have hrefused := created_write_refused hopen hnew (by decide) hcall hfd buf n
  refine ⟨⟨_,hrefused⟩,?_⟩
  rintro ⟨u,-,-,-,-,hwrite,-⟩
  cases hrefused.symm.trans hwrite
  exact absurd hn (by decide)

end Created

section Example

theorem treeHooks_open_same : ∀ hook s p t, treeHooks.open_ hook s p = some t → t = s :=
  fun _ _ _ _ h => (Option.some.inj h).symm

theorem rootWithFile_new : fsResolvePath treeHooks rootWithFile (some ['b']) = some none := by
  rw [rootWithFile_resolve]
  decide

theorem created_file_unusable_root : ∃ t, syscallOpen treeHooks constantAllocator rootWithFile
    (some ['b']) (oCreat ||| oRdwr) = some (t,3) ∧
    (∃ u, syscallWrite treeHooks constantAllocator t 3 (fun _ => 1#8) 1#32 = some (u,failed)) ∧
    ¬ Usable treeHooks constantAllocator t 3 ['b'] (fun _ => 1#8) 1#32 := by
  obtain ⟨t,ht⟩ := rootWithFile_creates (oCreat ||| oRdwr) (by decide)
  exact ⟨t,ht,created_file_unusable treeHooks_open_same rootWithFile_new ht (by decide) _ _
    (by decide)⟩

-- the directory exists and b is a new name in it
theorem created_file_refuses_byte : ∃ t, syscallOpen treeHooks constantAllocator rootWithFile
    (some ['b']) (oCreat ||| oRdwr) = some (t,3) ∧
    ∀ u, syscallWrite treeHooks constantAllocator t 3 (fun _ => 1#8) 1#32 ≠ some (u,1#32) := by
  obtain ⟨t,ht⟩ := rootWithFile_creates (oCreat ||| oRdwr) (by decide)
  refine ⟨t,ht,fun u hu => ?_⟩
  have hrefused := created_write_refused treeHooks_open_same rootWithFile_new (by decide) ht
    (by decide) (fun _ => 1#8) 1#32
  cases hrefused.symm.trans hu

end Example

end KluxOS.Syscall
