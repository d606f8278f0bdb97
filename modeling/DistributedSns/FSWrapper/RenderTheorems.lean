import DistributedSns.FSWrapper.Render
import DistributedSns.FSWrapper.Lemmas.Names
import DistributedSns.Lib.Outline

/-!
# What the text of the tree tells

The text is an outline of the tree. It shows the names and which of them are folders, and nothing else: the data of
the files is left out.
-/

namespace DistributedSns.FSWrapper

open Lib FSTreeNode
open Lib.PathMap (isFolder)

/-! ## The outline of a tree -/

def markers : Outline.Markers Char where
  inner := LOCAL_PREFIX
  through := TREE_PREFIX
  last := LOCAL_LAST_PREFIX
  blank := TREE_BLANK_PREFIX

theorem markers_distinct : markers.Distinct := by
  constructor <;> decide

theorem markers_free : markers.Free '\n' := by
  constructor <;> decide

namespace FSTreeNode

def label (folder : Bool) (name : Str) : Str := (if folder then FOLDER else FILE) ++ [' '] ++ name

mutual
def outline : FSTreeNode → Outline Char
  | ⟨folder, name, _, children⟩ => .node (label folder name) (outlines children)

def outlines : List (Str × FSTreeNode) → List (Outline Char)
  | [] => []
  | (_, child) :: children => outline child :: outlines children
end

theorem outlines_eq_map (children : List (Str × FSTreeNode)) : outlines children = children.map (outline ·.2) := by
  induction children with
  | nil => rfl
  | cons e children ih => rw [outlines, ih]; rfl

theorem label_inj {folder folder' : Bool} {name name' : Str} :
    label folder name = label folder' name' ↔ folder = folder' ∧ name = name' := by
  refine ⟨?_, ?_⟩
  · intro h
    cases folder <;> cases folder' <;> simp_all [label, FOLDER, FILE]
  · rintro ⟨rfl, rfl⟩
    rfl

end FSTreeNode

namespace FSMemory

/-- The lines of the outline, each behind `pre`. -/
def textBelow (pre : Str) (lines : List Str) : Str := lines.flatMap (pre ++ · ++ ['\n'])

theorem textBelow_map (pre mark : Str) (lines : List Str) :
    textBelow pre (lines.map (mark ++ ·)) = textBelow (pre ++ mark) lines := by
  simp [textBelow, List.flatMap_map]

theorem textBelow_block (pre first rest label : Str) (lines : List Str) :
    textBelow pre (Outline.block first rest (label :: lines)) =
      pre ++ first ++ (label ++ ['\n'] ++ textBelow (pre ++ rest) lines) := by
  rw [← textBelow_map]
  simp [Outline.block, textBelow]

theorem textBelow_append (pre : Str) (lines lines' : List Str) :
    textBelow pre (lines ++ lines') = textBelow pre lines ++ textBelow pre lines' := by
  simp [textBelow]

mutual
theorem toStringHelper_eq : (node : FSTreeNode) → (pre : Str) → toStringHelper node pre =
    label node.folder node.name ++ ['\n'] ++
      textBelow pre (Outline.linesBelow markers (outlines node.children))
  | ⟨folder, name, data, children⟩, pre => by
      rw [toStringHelper, toStringLoop_eq children pre _ 0 (by simp)]
      rfl

theorem toStringLoop_eq : (children : List (Str × FSTreeNode)) → (pre : Str) → (numChildren i : Int) →
    numChildren = i + children.length → toStringLoop pre numChildren children i =
      textBelow pre (Outline.linesBelow markers (outlines children))
  | [], pre, _, _, _ => rfl
  | [(_, ⟨folder, name, data, children⟩)], pre, numChildren, i, h => by
      have hlast : ¬ i < numChildren - 1 := by
        simp only [List.length_singleton] at h
        omega
      rw [toStringLoop, if_neg hlast, toStringHelper_eq ⟨folder, name, data, children⟩, toStringLoop, List.append_nil]
      exact (textBelow_block ..).symm
  | (_, ⟨folder, name, data, children⟩) :: next :: rest, pre, numChildren, i, h => by
      have hinner : i < numChildren - 1 := by
        simp only [List.length_cons] at h
        omega
      have hrest := toStringLoop_eq (next :: rest) pre numChildren (i + 1) (by
        simp only [List.length_cons] at h ⊢
        omega)
      rw [toStringLoop, if_pos hinner, toStringHelper_eq ⟨folder, name, data, children⟩, hrest]
      simp only [outlines, outline, Outline.linesBelow, Outline.lines]
      rw [textBelow_append, textBelow_block]
      rfl
end

/-- The text consists of the lines of the outline. -/
theorem toString_eq (fs : FSMemory) :
    fs.toString = (Outline.lines markers fs.filetree.outline).flatMap (· ++ ['\n']) := by
  obtain ⟨coarseMutex, fsMutex, folder, name, data, children⟩ := fs
  rw [toString, toStringHelper_eq]
  rfl

end FSMemory

/-! ## The shape of a tree -/

/-- Both stores have the same paths, and the same of them are folders. -/
def SameShape (m m' : PathMap Str Char) : Prop :=
  ∀ p, (m p).isSome = (m' p).isSome ∧ isFolder (m p) = isFolder (m' p)

theorem SameShape.symm {m m' : PathMap Str Char} (h : SameShape m m') : SameShape m' m :=
  fun p => ⟨(h p).1.symm, (h p).2.symm⟩

namespace FSTreeNode

variable {node node' child : FSTreeNode} {n : Str} {p : List Str}

theorem outline_eq (node : FSTreeNode) :
    node.outline = .node (label node.folder node.name) (node.children.map (outline ·.2)) := by
  obtain ⟨folder, name, data, children⟩ := node
  rw [outline, outlines_eq_map]

theorem outline_inj (h : node.outline = node'.outline) : node.folder = node'.folder ∧ node.name = node'.name ∧
    node.children.map (outline ·.2) = node'.children.map (outline ·.2) := by
  rw [outline_eq, outline_eq] at h
  obtain ⟨hlabel, hchildren⟩ := Outline.node.inj h
  obtain ⟨hfolder, hname⟩ := label_inj.mp hlabel
  exact ⟨hfolder, hname, hchildren⟩

/-- Nodes with the same outline have children of the same names, which have the same outlines. -/
theorem Ok.getChild_of_outline (h : node.Ok) (h' : node'.Ok) (heq : node.outline = node'.outline)
    (hc : node.getChild n = some child) :
    ∃ child', node'.getChild n = some child' ∧ child.outline = child'.outline := by
  have hmem : child.outline ∈ node'.children.map (outline ·.2) := by
    rw [← (outline_inj heq).2.2]
    exact List.mem_map.mpr ⟨(n, child), Assoc.mem_of_lookup hc, rfl⟩
  obtain ⟨⟨n', child'⟩, he, houtline⟩ := List.mem_map.mp hmem
  have hc' : node'.getChild n' = some child' := (Assoc.lookup_eq_some_iff_mem h'.sorted).mpr he
  have hname : child'.name = child.name := (outline_inj houtline).2.1
  rw [(h.getChild hc).2.1, (h'.getChild hc').2.1] at hname
  exact ⟨child', hname ▸ hc', houtline.symm⟩

theorem isSome_files_nil (node : FSTreeNode) : (node.files []).isSome = true := rfl

theorem sameShape_of_outline (h : node.Ok) (h' : node'.Ok) (heq : node.outline = node'.outline) :
    SameShape node.files node'.files := by
  intro p
  induction p generalizing node node' with
  | nil =>
      refine ⟨rfl, ?_⟩
      rw [files_nil, files_nil, isFolder_entry, isFolder_entry]
      exact (outline_inj heq).1
  | cons n p ih =>
      rw [files_cons, files_cons]
      cases hc : node.getChild n with
      | some child =>
          obtain ⟨child', hc', houtline⟩ := h.getChild_of_outline h' heq hc
          rw [hc']
          exact ih (h.getChild hc).1 (h'.getChild hc').1 houtline
      | none =>
          cases hc' : node'.getChild n with
          | none => exact ⟨rfl, rfl⟩
          | some child' =>
              obtain ⟨child, hc'', -⟩ := h'.getChild_of_outline h heq.symm hc'
              rw [hc] at hc''
              cases hc''

theorem SameShape.getChild (h : SameShape node.files node'.files) (hc : node.getChild n = some child) :
    ∃ child', node'.getChild n = some child' ∧ SameShape child.files child'.files := by
  have hn := (h [n]).1
  rw [files_cons, files_cons, hc] at hn
  cases hc' : node'.getChild n with
  | none =>
      rw [hc'] at hn
      cases hn
  | some child' =>
      refine ⟨child', rfl, ?_⟩
      intro p
      have hp := h (n :: p)
      rwa [files_cons, files_cons, hc, hc'] at hp

theorem outline_of_sameShape (h : node.Ok) (h' : node'.Ok) (hname : node.name = node'.name)
    (hshape : SameShape node.files node'.files) : node.outline = node'.outline := by
  have hroot := (hshape []).2
  rw [files_nil, files_nil, isFolder_entry, isFolder_entry] at hroot
  induction h generalizing node' with
  | file name data =>
      cases h' with
      | folder => cases hroot
      | file name' data' =>
          cases hname
          rfl
  | @folder name children hsorted hkey hnamed hbelow ih =>
      cases h' with
      | file => cases hroot
      | @folder name' children' hsorted' hkey' hnamed' hbelow' =>
          cases hname
          have hok : Ok ⟨true, name, [], children⟩ := .folder name hsorted hkey hnamed hbelow
          have hok' : Ok ⟨true, name, [], children'⟩ := .folder name hsorted' hkey' hnamed' hbelow'
          rw [outline_eq, outline_eq]
          congr 1
          refine hsorted.map_ext hsorted' fun n => ?_
          change (FSTreeNode.getChild ⟨true, name, [], children⟩ n).map outline =
            (FSTreeNode.getChild ⟨true, name, [], children'⟩ n).map outline
          cases hc : FSTreeNode.getChild ⟨true, name, [], children⟩ n with
          | some child =>
              obtain ⟨child', hc', hchild⟩ := SameShape.getChild hshape hc
              have hfolder := (hchild []).2
              rw [files_nil, files_nil, isFolder_entry, isFolder_entry] at hfolder
              have hname := (hok.getChild hc).2.1.trans (hok'.getChild hc').2.1.symm
              rw [hc', Option.map_some, Option.map_some,
                ih _ (Assoc.mem_of_lookup hc) (hok'.getChild hc').1 hname hchild hfolder]
          | none =>
              cases hc' : FSTreeNode.getChild ⟨true, name, [], children'⟩ n with
              | none => rfl
              | some child' =>
                  obtain ⟨child, hc'', -⟩ := SameShape.getChild hshape.symm hc'
                  rw [hc] at hc''
                  cases hc''

/-! ## Names without a newline -/

theorem newline_not_mem_label {folder : Bool} {name : Str} (h : '\n' ∉ name) : '\n' ∉ label folder name := by
  cases folder <;> simp [label, FOLDER, FILE, h]

theorem Ok.outline_free (h : node.Ok) (hname : '\n' ∉ node.name)
    (hpath : ∀ p, (node.files p).isSome → ∀ t ∈ p, '\n' ∉ t) : node.outline.Free '\n' := by
  induction h with
  | file name data =>
      rw [outline_eq]
      exact .node (newline_not_mem_label hname) (by simp)
  | @folder name children hsorted hkey hnamed hbelow ih =>
      rw [outline_eq]
      refine .node (newline_not_mem_label hname) ?_
      intro t ht
      obtain ⟨⟨n, child⟩, he, rfl⟩ := List.mem_map.mp ht
      have hc : FSTreeNode.getChild ⟨true, name, [], children⟩ n = some child :=
        (Assoc.lookup_eq_some_iff_mem hsorted).mpr he
      have hfiles (p : List Str) : FSTreeNode.files ⟨true, name, [], children⟩ (n :: p) = child.files p := by
        rw [files_cons, hc, Option.bind_some]
      have hn : '\n' ∉ n := hpath [n] (by rw [hfiles]; rfl) n (by simp)
      have hchild : child.name = n := hnamed _ he
      refine ih _ he (by rwa [hchild]) ?_
      intro p hp t ht
      exact hpath (n :: p) (by rwa [hfiles]) t (List.mem_cons_of_mem _ ht)

end FSTreeNode

/-! ## The text after any calls -/

namespace FSMemory

variable {coarseMutex coarseMutex' : Bool} {cs cs' : List (PathMap.Call Str Char)} {fs fs' : FSMemory}
  {rs rs' : List (PathMap.Result Char)}

/-- The root is made by the constructor and keeps its name. -/
theorem calls_root (h : (init coarseMutex).calls cs = .ok (fs, rs)) :
    fs.filetree.Ok ∧ fs.filetree.name = ROOT ∧ fs.filetree.folder = true := by
  have hreach := reachable_calls (.init rfl) h
  refine hreach.invariant
    (P := fun fs => fs.filetree.Ok ∧ fs.filetree.name = ROOT ∧ fs.filetree.folder = true) ?_ ?_
  · rintro fs rfl
    exact ⟨.make ROOT true fun _ => rfl, rfl, rfl⟩
  · rintro fs c fs' ⟨hok, hname, hfolder⟩ ⟨r, hr⟩
    have hreplaces := call_ok hok hr
    exact ⟨hreplaces.ok, hreplaces.name.trans hname, hreplaces.folder.trans hfolder⟩

theorem outline_free (h : (init coarseMutex).calls cs = .ok (fs, rs)) (hline : ∀ c ∈ cs, '\n' ∉ c.path) :
    fs.filetree.outline.Free '\n' := by
  obtain ⟨hok, hname, -⟩ := calls_root h
  refine hok.outline_free (by rw [hname]; decide) ?_
  intro p hp t ht hmem
  obtain ⟨c, hc, hcomponent⟩ := exists_of_name h hp ht
  exact hline c hc (mem_of_mem_components hcomponent hmem)

/-- After any calls whose paths have no newline the text of one tree is that of another exactly if the trees have the
same paths and the same folders among them. -/
theorem toString_eq_iff (h : (init coarseMutex).calls cs = .ok (fs, rs))
    (h' : (init coarseMutex').calls cs' = .ok (fs', rs')) (hline : ∀ c ∈ cs, '\n' ∉ c.path)
    (hline' : ∀ c ∈ cs', '\n' ∉ c.path) : fs.toString = fs'.toString ↔ SameShape fs.files fs'.files := by
  obtain ⟨hok, hname, -⟩ := calls_root h
  obtain ⟨hok', hname', -⟩ := calls_root h'
  have houtline : fs.filetree.outline = fs'.filetree.outline ↔ SameShape fs.files fs'.files :=
    ⟨sameShape_of_outline hok hok', outline_of_sameShape hok hok' (hname.trans hname'.symm)⟩
  rw [← houtline, toString_eq, toString_eq]
  refine ⟨fun heq => ?_, fun heq => by rw [heq]⟩
  exact Outline.lines_injective markers_distinct _ _ (Outline.lines_of_text
    (Outline.not_mem_lines markers_free _ (outline_free h hline))
    (Outline.not_mem_lines markers_free _ (outline_free h' hline')) heq)

/-- A folder with a file in it, made on the way or one after the other. -/
def madeOnTheWay : List (PathMap.Call Str Char) := [⟨"a/f".toList, .write "x".toList true false⟩]

def madeInTurn : List (PathMap.Call Str Char) :=
  [⟨"/a".toList, .create true false⟩, ⟨"/a/f".toList, .create false false⟩]

theorem toString_eq_iff_made : ∃ fs rs fs' rs', (init false).calls madeOnTheWay = .ok (fs, rs) ∧
    (init false).calls madeInTurn = .ok (fs', rs') ∧ fs.toString = "> root\n└── > a\n    └── # f\n".toList ∧
    SameShape fs.files fs'.files := by
  have hway : ∃ fs rs, (init false).calls madeOnTheWay = .ok (fs, rs) ∧
      fs.toString = "> root\n└── > a\n    └── # f\n".toList := ⟨_, _, rfl, rfl⟩
  have hturn : ∃ fs rs, (init false).calls madeInTurn = .ok (fs, rs) ∧
      fs.toString = "> root\n└── > a\n    └── # f\n".toList := ⟨_, _, rfl, rfl⟩
  obtain ⟨fs, rs, hr, htext⟩ := hway
  obtain ⟨fs', rs', hr', htext'⟩ := hturn
  exact ⟨fs, rs, fs', rs', hr, hr', htext,
    (toString_eq_iff hr hr' (by decide) (by decide)).mp (htext.trans htext'.symm)⟩

end FSMemory

end DistributedSns.FSWrapper
