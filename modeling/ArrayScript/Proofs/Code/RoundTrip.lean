import ArrayScript.Proofs.Code.Reading
import ArrayScript.Proofs.Lowering.Operations

/-!
A stored module holds what the module holds, and nothing else.

* `CodeModule.sections`: what is to be found in a stored module.
* `consumes_body`: the local variables and the code of a function are read back.
* `reads_types` … `reads_names`: so is each section.
* `CompiledFunction.IsLowered.isNumbered`: in a lowered function no index is too large for
  its stored form.
* `decode_encode`: decoding a stored module of lowered functions gives its sections, and
  different modules are stored differently.
-/

namespace ArrayScript

open Decoder

/-! ### Functions -/

/-- Runs are expanded to what they were made from. -/
lemma expand_runs (types : List WordType) :
    ((Binary.runs types).flatMap fun (n, t) => List.replicate n t) = types := by
  induction types with
  | nil => rfl
  | cons t types ih =>
      rw [Binary.runs]
      split
      · rename_i n t' groups hgroups
        rw [hgroups, List.flatMap_cons] at ih
        split
        · rename_i ht
          subst ht
          show t :: (List.replicate n t ++ groups.flatMap _) = t :: types
          exact congrArg (t :: ·) ih
        · rw [List.flatMap_cons, List.flatMap_cons, ih]
          rfl
      · rename_i hgroups
        rw [hgroups] at ih
        rw [← ih]
        rfl

lemma sum_runs (types : List WordType) :
    ((Binary.runs types).map Prod.fst).sum = types.length := by
  have h := congrArg List.length (expand_runs types)
  rw [List.length_flatMap] at h
  simpa using h

lemma length_runs_le (types : List WordType) : (Binary.runs types).length ≤ types.length := by
  induction types with
  | nil => exact le_rfl
  | cons t types ih =>
      rw [Binary.runs]
      split
      · rename_i hgroups
        rw [hgroups] at ih
        split <;> simp only [List.length_cons] at ih ⊢ <;> omega
      · simp

/-- The types of local variables are read back. -/
lemma reads_localTypes {types : List WordType} (hsize : types.length < 2 ^ 32) :
    Reads Decoder.localTypes (Binary.localTypes types) types := by
  have hgroup : ∀ g ∈ Binary.runs types,
      Reads (do return (← u32, ← wordType)) (Binary.unsigned g.1 ++ [Binary.wordType g.2]) g := by
    intro g hg
    have hle : g.1 ≤ ((Binary.runs types).map Prod.fst).sum :=
      List.le_sum_of_mem (List.mem_map_of_mem hg)
    rw [sum_runs] at hle
    exact (reads_u32 (by omega)).bind ((reads_wordType g.2).map fun t => (g.1, t))
  have hgroups := reads_vector hgroup ((length_runs_le types).trans_lt hsize)
  rw [List.map_id'] at hgroups
  have hsum : ((Binary.runs types).map Prod.fst).sum < 2 ^ 32 := by rwa [sum_runs]
  intro rest
  rw [Decoder.localTypes, Binary.localTypes, bind_eq_of_eq_some (hgroups rest), guard_bind hsum,
    expand_runs]
  rfl

/-- The local variables and the code of a function are read back. -/
lemma consumes_body {f : CompiledFunction} (hlocals : f.locals.length < 2 ^ 32)
    (hbody : f.body.Every Op.InRange) :
    Consumes Decoder.body (Binary.body f) (f.locals, f.body) := by
  have hmark : ∀ k ∈ f.body.listing, Reads mark (Binary.mark k) k := by
    intro k hk
    refine reads_mark fun o ho => ?_
    subst ho
    rw [Code.listing, List.mem_append] at hk
    rcases hk with hk | hk
    · exact hbody o hk
    · simp at hk
  have hmarks : Consumes (untilEnd mark) (f.body.listing.flatMap Binary.mark) f.body.listing := by
    rw [List.flatMap_def]
    refine consumes_untilEnd (List.forall₂_map_left_iff.mpr (List.forall₂_same.mpr fun k hk => ?_))
    exact ⟨mark_ne_nil k, hmark k hk⟩
  refine (reads_localTypes hlocals).bind_consumes ?_
  rw [Consumes, bind_eq_of_eq_some hmarks, nest_listing]
  rfl

section

variable {α β : Type} {items : List β} {write : β → Bytes}

/-- An item is no longer than all items with their number. -/
lemma length_item_le {x : β} (hx : x ∈ items) :
    (write x).length ≤ (Binary.vector (items.map write)).length := by
  have hle : (write x).length ≤ ((items.map write).map List.length).sum :=
    List.le_sum_of_mem (List.mem_map_of_mem (List.mem_map_of_mem hx))
  rw [Binary.vector, List.length_append, List.length_flatten]
  omega

/-- There are no more items than bytes, if each item takes some. -/
lemma length_le_vector (hne : ∀ x ∈ items, write x ≠ []) :
    items.length ≤ (Binary.vector (items.map write)).length := by
  have key : items.length ≤ (items.map write).flatten.length := by
    induction items with
    | nil => exact Nat.zero_le _
    | cons x items ih =>
        rw [List.forall_mem_cons] at hne
        have hpos : 0 < (write x).length := List.length_pos_of_ne_nil hne.1
        have hrest := ih hne.2
        rw [List.map_cons, List.flatten_cons, List.length_append, List.length_cons]
        omega
  rw [Binary.vector, List.length_append]
  omega

/-- Items that take up bytes are read by their number, if all together are not too long. -/
lemma reads_vector_of_length {d : Decoder α} {value : β → α}
    (hne : ∀ x ∈ items, write x ≠ [])
    (h : ∀ x ∈ items, (write x).length < 2 ^ 32 → Reads d (write x) (value x))
    (hsize : (Binary.vector (items.map write)).length < 2 ^ 32) :
    Reads (vector d) (Binary.vector (items.map write)) (items.map value) :=
  reads_vector (fun x hx => h x hx ((length_item_le hx).trans_lt hsize))
    ((length_le_vector hne).trans_lt hsize)

lemma length_sized_le (content : Bytes) : content.length ≤ (Binary.sized content).length := by
  rw [Binary.sized, List.length_append]
  omega

end

/-! ### Parts of modules -/

/-- Items with their positions. -/
def byIndex {α : Type} (items : List α) : List (Nat × α) :=
  items.zipIdx.map fun (a, k) => (k, a)

section

variable {α β : Type} {items : List β} {write : β → Bytes}

/-- An item as it is stored with its position. -/
def storedAt (write : β → Bytes) (p : β × Nat) : Bytes :=
  Binary.unsigned p.2 ++ write p.1

lemma storedAt_ne_nil (p : β × Nat) : storedAt write p ≠ [] := by
  simp [storedAt, unsigned_ne_nil]

lemma numbered_map : Binary.numbered (items.map write) = items.zipIdx.map (storedAt write) := by
  rw [Binary.numbered, List.zipIdx_map, List.map_map]
  rfl

lemma byIndex_map (value : β → α) :
    byIndex (items.map value) = items.zipIdx.map fun p => (p.2, value p.1) := by
  rw [byIndex, List.zipIdx_map, List.map_map]
  rfl

/-- There are no more items than bytes. -/
lemma length_le_numbered :
    items.length ≤ (Binary.vector (Binary.numbered (items.map write))).length := by
  have hle : items.zipIdx.length ≤ (Binary.vector (items.zipIdx.map (storedAt write))).length :=
    length_le_vector fun p _ => storedAt_ne_nil p
  rw [numbered_map]
  rwa [List.length_zipIdx] at hle

/-- An item is no longer than all items with their positions. -/
lemma length_numbered_item_le (write : β → Bytes) {x : β} (hx : x ∈ items) :
    (write x).length ≤ (Binary.vector (Binary.numbered (items.map write))).length := by
  obtain ⟨k, hk, rfl⟩ := List.mem_iff_getElem.mp hx
  have hmem : (items[k], k) ∈ items.zipIdx := by
    rw [List.mk_mem_zipIdx_iff_getElem?]
    exact List.getElem?_eq_getElem hk
  have hle : (storedAt write (items[k], k)).length ≤
      (Binary.vector (items.zipIdx.map (storedAt write))).length := length_item_le hmem
  simp only [storedAt, List.length_append] at hle
  rw [numbered_map]
  omega

/-- Items are read back with their positions. -/
lemma reads_indexed {d : Decoder α} {value : β → α}
    (h : ∀ x ∈ items, (write x).length < 2 ^ 32 → Reads d (write x) (value x))
    (hsize : (Binary.vector (Binary.numbered (items.map write))).length < 2 ^ 32) :
    Reads (indexed d) (Binary.vector (Binary.numbered (items.map write)))
      (byIndex (items.map value)) := by
  have hrising : ((byIndex (items.map value)).map Prod.fst).Pairwise (· < ·) := by
    have hfst : (byIndex (items.map value)).map Prod.fst = List.range' 0 items.length := by
      rw [byIndex_map, List.map_map]
      exact List.zipIdx_map_snd 0 items
    rw [hfst]
    exact List.pairwise_lt_range' (s := 0)
  have hitem : ∀ p ∈ items.zipIdx,
      Reads (do return (← u32, ← d)) (storedAt write p) (p.2, value p.1) := by
    intro p hp
    have hcount : items.length < 2 ^ 32 := length_le_numbered.trans_lt hsize
    have hposition := List.snd_lt_of_mem_zipIdx hp
    have hmem := List.fst_mem_of_mem_zipIdx hp
    have hvalue := h p.1 hmem ((length_numbered_item_le write hmem).trans_lt hsize)
    exact (reads_u32 (by omega)).bind (hvalue.map fun a => (p.2, a))
  rw [numbered_map] at hsize ⊢
  have hitems := reads_vector_of_length (fun p _ => storedAt_ne_nil p)
    (fun p hp _ => hitem p hp) hsize
  rw [← byIndex_map] at hitems
  intro rest
  rw [indexed, bind_eq_of_eq_some (hitems rest), guard_bind hrising]
  rfl

end

lemma reads_wordTypes {types : List WordType}
    (hsize : (Binary.vector (types.map fun t => [Binary.wordType t])).length < 2 ^ 32) :
    Reads (vector wordType) (Binary.vector (types.map fun t => [Binary.wordType t])) types := by
  have h := reads_vector_of_length (fun _ _ => by simp) (fun t _ _ => reads_wordType t) hsize
  rwa [List.map_id'] at h

lemma reads_functionType {f : CompiledFunction}
    (hsize : (Binary.functionType f).length < 2 ^ 32) :
    Reads functionType (Binary.functionType f) (f.params, [f.result]) := by
  rw [Binary.functionType, List.length_cons, List.length_append] at hsize
  have hparams : Reads (vector wordType) (Binary.vector (f.params.map fun t =>
      [Binary.wordType t])) f.params := reads_wordTypes (by omega)
  have hresult : Reads (vector wordType) (Binary.vector ([f.result].map fun t =>
      [Binary.wordType t])) [f.result] :=
    reads_wordTypes (by simp only [List.map_cons, List.map_nil]; omega)
  exact (reads_expect [0x60]).bind (hparams.bind (hresult.map fun r => (f.params, r)))

/-! ### Sections -/

open CodeModule in
/-- What is to be found in a stored module: the types of its functions, the memory it
imports if it has one, for each function its own type, its export and its body, the export
of the memory, and the names of functions and variables. -/
def CodeModule.sections (m : CodeModule) : List Section :=
  [.types (m.functions.map fun f => (f.params, [f.result]))] ++
  (if m.importsMemory then [.imports [(memoryImport.1, memoryImport.2, .memory 0 none)]] else []) ++
  [.functions (List.range m.functions.length),
    .exports (m.functions.zipIdx.map (fun (f, k) => (f.name, .function, k)) ++
      if m.importsMemory then [(memoryExport, .memory, 0)] else []),
    .code (m.functions.map fun f => (f.locals, f.body)),
    .names [.functions (byIndex (m.functions.map (·.name))),
      .locals (byIndex (m.functions.map fun f => byIndex f.localNames))]]

section

variable {fs : List CompiledFunction}

lemma reads_types
    (hsize : (Binary.vector (fs.map Binary.functionType)).length < 2 ^ 32) :
    Reads moduleSection (Binary.tagged 1 (Binary.vector (fs.map Binary.functionType)))
      (.types (fs.map fun f => (f.params, [f.result]))) := by
  have hitems := reads_vector_of_length (fun f _ => by simp [Binary.functionType])
    (fun f _ hf => reads_functionType hf) hsize
  exact (reads_byte 1).bind ((reads_sized hitems.consumes hsize).map Section.types)

lemma reads_functions
    (hsize : (Binary.vector ((List.range fs.length).map Binary.unsigned)).length < 2 ^ 32) :
    Reads moduleSection
      (Binary.tagged 3 (Binary.vector ((List.range fs.length).map Binary.unsigned)))
      (.functions (List.range fs.length)) := by
  have hcount : (List.range fs.length).length ≤
      (Binary.vector ((List.range fs.length).map Binary.unsigned)).length :=
    length_le_vector fun k _ => unsigned_ne_nil k
  have hitem : ∀ k ∈ List.range fs.length, Reads u32 (Binary.unsigned k) k := by
    intro k hk
    rw [List.length_range] at hcount
    rw [List.mem_range] at hk
    exact reads_u32 (by omega)
  have hitems := reads_vector_of_length (fun k _ => unsigned_ne_nil k) (fun k hk _ => hitem k hk)
    hsize
  rw [List.map_id'] at hitems
  exact (reads_byte 3).bind ((reads_sized hitems.consumes hsize).map Section.functions)

lemma reads_imports (hsize : (Binary.vector [Binary.memoryEntry]).length < 2 ^ 32) :
    Reads moduleSection (Binary.tagged 2 (Binary.vector [Binary.memoryEntry]))
      (.imports [(CodeModule.memoryImport.1, CodeModule.memoryImport.2, .memory 0 none)]) := by
  have hitem : Binary.memoryEntry.length < 2 ^ 32 →
      Reads (do return (← name, ← name, ← importItem)) Binary.memoryEntry
        (CodeModule.memoryImport.1, CodeModule.memoryImport.2, .memory 0 none) := by
    intro hentry
    rw [Binary.memoryEntry, List.append_assoc, List.length_append, List.length_append] at hentry
    have hmemory : Reads importItem [0x02, 0x00, 0x00] (.memory 0 none) := fun _ => rfl
    rw [Binary.memoryEntry, List.append_assoc]
    exact (reads_name (by omega)).bind ((reads_name (by omega)).bind (hmemory.map fun item =>
      (CodeModule.memoryImport.1, CodeModule.memoryImport.2, item)))
  have hitems : Reads (vector do return (← name, ← name, ← importItem))
      (Binary.vector ([()].map fun _ => Binary.memoryEntry)) ([()].map fun _ =>
        (CodeModule.memoryImport.1, CodeModule.memoryImport.2, .memory 0 none)) :=
    reads_vector_of_length (fun _ _ => by simp [Binary.memoryEntry]) (fun _ _ => hitem) hsize
  exact (reads_byte 2).bind ((reads_sized hitems.consumes hsize).map Section.imports)

/-- The byte of a kind. -/
def ExportKind.byte : ExportKind → UInt8
  | .function => 0x00
  | .table => 0x01
  | .memory => 0x02
  | .global => 0x03

lemma reads_exportKind (kind : ExportKind) : Reads exportKind [kind.byte] kind := by
  cases kind <;> exact fun _ => rfl

/-- An export as it is stored. -/
def storedExport (item : String × ExportKind × Nat) : Bytes :=
  Binary.name item.1 ++ item.2.1.byte :: Binary.unsigned item.2.2

lemma reads_export {item : String × ExportKind × Nat} (hindex : item.2.2 < 2 ^ 32)
    (hsize : (storedExport item).length < 2 ^ 32) :
    Reads (do return (← name, ← exportKind, ← u32)) (storedExport item) item := by
  rw [storedExport, List.length_append] at hsize
  exact (reads_name (by omega)).bind ((reads_exportKind item.2.1).bind
    ((reads_u32 hindex).map fun k => (item.1, item.2.1, k)))

/-- The exports of a module. -/
def CodeModule.exportItems (m : CodeModule) : List (String × ExportKind × Nat) :=
  m.functions.zipIdx.map (fun (f, k) => (f.name, .function, k)) ++
    if m.importsMemory then [(memoryExport, .memory, 0)] else []

lemma exportEntries_eq (m : CodeModule) :
    Binary.exportEntries m = m.exportItems.map storedExport := by
  have hzero : Binary.unsigned 0 = [0x00] := by
    rw [Binary.unsigned, if_pos (by decide)]
    rfl
  rw [Binary.exportEntries, CodeModule.exportItems, List.map_append, List.map_map]
  cases m.importsMemory with
  | false => rfl
  | true =>
      simp only [if_true, List.map_cons, List.map_nil, storedExport, hzero, ExportKind.byte]
      rfl

lemma reads_exports (m : CodeModule)
    (hsize : (Binary.vector (Binary.exportEntries m)).length < 2 ^ 32) :
    Reads moduleSection (Binary.tagged 7 (Binary.vector (Binary.exportEntries m)))
      (.exports m.exportItems) := by
  rw [exportEntries_eq] at hsize ⊢
  have hne : ∀ item ∈ m.exportItems, storedExport item ≠ [] := fun item _ => by
    simp [storedExport]
  have hcount := length_le_vector hne
  have hfunctions : m.functions.length ≤ m.exportItems.length := by simp [CodeModule.exportItems]
  have hindex : ∀ item ∈ m.exportItems, item.2.2 < 2 ^ 32 := by
    intro item hitem
    rw [CodeModule.exportItems, List.mem_append] at hitem
    rcases hitem with hitem | hitem
    · obtain ⟨p, hp, rfl⟩ := List.mem_map.mp hitem
      have hlt := List.snd_lt_of_mem_zipIdx hp
      dsimp only
      omega
    · cases hm : m.importsMemory with
      | false => simp [hm] at hitem
      | true =>
          rw [hm, if_pos rfl, List.mem_singleton] at hitem
          rw [hitem]
          decide
  have hitems := reads_vector_of_length hne
    (fun item hitem hitemSize => reads_export (hindex item hitem) hitemSize) hsize
  rw [List.map_id'] at hitems
  exact (reads_byte 7).bind ((reads_sized hitems.consumes hsize).map Section.exports)

lemma reads_code (hlocals : ∀ f ∈ fs, f.locals.length < 2 ^ 32)
    (hbody : ∀ f ∈ fs, f.body.Every Op.InRange)
    (hsize : (Binary.vector (fs.map fun f => Binary.sized (Binary.body f))).length < 2 ^ 32) :
    Reads moduleSection
      (Binary.tagged 10 (Binary.vector (fs.map fun f => Binary.sized (Binary.body f))))
      (.code (fs.map fun f => (f.locals, f.body))) := by
  have hitem : ∀ f ∈ fs, (Binary.sized (Binary.body f)).length < 2 ^ 32 →
      Reads (sized body) (Binary.sized (Binary.body f)) (f.locals, f.body) := by
    intro f hf hfsize
    have hle := length_sized_le (Binary.body f)
    exact reads_sized (consumes_body (hlocals f hf) (hbody f hf)) (by omega)
  have hitems := reads_vector_of_length (fun f _ => by simp [Binary.sized, unsigned_ne_nil])
    hitem hsize
  exact (reads_byte 10).bind ((reads_sized hitems.consumes hsize).map Section.code)

/-- The names of functions are read back. -/
lemma reads_functionNames
    (hsize : (Binary.vector (Binary.numbered (fs.map fun f =>
      Binary.name f.name))).length < 2 ^ 32) :
    Reads nameEntry
      (Binary.tagged 1 (Binary.vector (Binary.numbered (fs.map fun f => Binary.name f.name))))
      (.functions (byIndex (fs.map (·.name)))) := by
  have hread := reads_indexed (fun f _ hf => reads_name hf) hsize
  exact (reads_byte 1).bind ((reads_sized hread.consumes hsize).map NameEntry.functions)

/-- The names of a function's variables as they are stored. -/
def storedNames (f : CompiledFunction) : Bytes :=
  Binary.vector (Binary.numbered (f.localNames.map Binary.name))

/-- The names of variables are read back. -/
lemma reads_localNames
    (hsize : (Binary.vector (Binary.numbered (fs.map storedNames))).length < 2 ^ 32) :
    Reads nameEntry (Binary.tagged 2 (Binary.vector (Binary.numbered (fs.map storedNames))))
      (.locals (byIndex (fs.map fun f => byIndex f.localNames))) := by
  have hread := reads_indexed (fun f _ hf => reads_indexed (fun s _ hs => reads_name hs) hf) hsize
  simp only [List.map_id'] at hread
  exact (reads_byte 2).bind ((reads_sized hread.consumes hsize).map NameEntry.locals)

lemma names_eq (m : CodeModule) :
    Binary.names m = Binary.name "name" ++
      [Binary.tagged 1 (Binary.vector (Binary.numbered (m.functions.map fun f =>
          Binary.name f.name))),
        Binary.tagged 2 (Binary.vector (Binary.numbered
          (m.functions.map storedNames)))].flatten := by
  simp only [List.flatten_cons, List.flatten_nil, List.append_nil, ← List.append_assoc]
  rfl

lemma reads_names (m : CodeModule) (hsize : (Binary.names m).length < 2 ^ 32) :
    Reads moduleSection (Binary.tagged 0 (Binary.names m))
      (.names [.functions (byIndex (m.functions.map (·.name))),
        .locals (byIndex (m.functions.map fun f => byIndex f.localNames))]) := by
  have hword : (Binary.name "name").length < 2 ^ 32 := by
    simp only [names_eq, List.length_append] at hsize
    omega
  have hfunctions : Reads nameEntry _ (.functions (byIndex (m.functions.map (·.name)))) :=
    reads_functionNames (by
      have hle := length_sized_le (Binary.vector (Binary.numbered (m.functions.map fun f =>
        Binary.name f.name)))
      simp only [names_eq, Binary.tagged, List.flatten_cons, List.length_append,
        List.length_cons] at hsize
      omega)
  have hlocals : Reads nameEntry _
      (.locals (byIndex (m.functions.map fun f => byIndex f.localNames))) :=
    reads_localNames (by
      have hle := length_sized_le (Binary.vector (Binary.numbered (m.functions.map storedNames)))
      simp only [names_eq, Binary.tagged, List.flatten_cons, List.length_append,
        List.length_cons] at hsize
      omega)
  have hentries := consumes_untilEnd (.cons ⟨by simp [Binary.tagged], hfunctions⟩
    (.cons ⟨by simp [Binary.tagged], hlocals⟩ .nil))
  have hcontent : Consumes (do guard ((← name) = "name"); untilEnd nameEntry) (Binary.names m)
      [.functions (byIndex (m.functions.map (·.name))),
        .locals (byIndex (m.functions.map fun f => byIndex f.localNames))] := by
    rw [names_eq]
    refine (reads_name hword).bind_consumes ?_
    rw [guard_bind rfl]
    exact hentries
  exact (reads_byte 0).bind ((reads_sized hcontent hsize).map Section.names)

end

/-! ### Modules -/

/-- The indices in a function have at most 32 bits, as far as the number of its variables
has. -/
structure CompiledFunction.IsNumbered (f : CompiledFunction) : Prop where
  locals_le : f.locals.length ≤ f.localNames.length
  inRange : f.localNames.length < 2 ^ 32 → f.body.Every Op.InRange

/-- Content is no longer than what is stored for it. -/
lemma length_tagged_le (kind : UInt8) (content : Bytes) :
    content.length ≤ (Binary.tagged kind content).length := by
  have hle := length_sized_le content
  rw [Binary.tagged, List.length_cons]
  omega

/-- There are no more variables than bytes for their names. -/
lemma length_localNames_le {m : CodeModule} {f : CompiledFunction} (hf : f ∈ m.functions) :
    f.localNames.length ≤ (Binary.names m).length := by
  have hnames : f.localNames.length ≤ (storedNames f).length := length_le_numbered
  have hitem := length_numbered_item_le storedNames hf
  have hcontent := length_tagged_le 2
    (Binary.vector (Binary.numbered (m.functions.map storedNames)))
  simp only [names_eq, List.flatten_cons, List.length_append]
  omega

/-- The sections of a module as they are stored. -/
def CodeModule.storedSections (m : CodeModule) : List Bytes :=
  [Binary.tagged 1 (Binary.vector (m.functions.map Binary.functionType))] ++
  (if m.importsMemory then [Binary.tagged 2 (Binary.vector [Binary.memoryEntry])] else []) ++
  [Binary.tagged 3 (Binary.vector ((List.range m.functions.length).map Binary.unsigned)),
    Binary.tagged 7 (Binary.vector (Binary.exportEntries m)),
    Binary.tagged 10 (Binary.vector (m.functions.map fun f => Binary.sized (Binary.body f))),
    Binary.tagged 0 (Binary.names m)]

lemma encode_eq (m : CodeModule) :
    m.encode = [0x00, 0x61, 0x73, 0x6d] ++ ([0x01, 0x00, 0x00, 0x00] ++
      m.storedSections.flatten) := by
  cases hm : m.importsMemory <;>
    simp [CodeModule.encode, CodeModule.storedSections, Binary.header, hm]

/-- The content of a stored section is no longer than the module. -/
lemma length_section_lt {m : CodeModule} (hsize : m.encode.length < 2 ^ 32) (kind : UInt8)
    {content : Bytes} (hmem : Binary.tagged kind content ∈ m.storedSections) :
    content.length < 2 ^ 32 := by
  have hle : (Binary.tagged kind content).length ≤ (m.storedSections.map List.length).sum :=
    List.le_sum_of_mem (List.mem_map_of_mem hmem)
  have hcontent := length_tagged_le kind content
  rw [encode_eq, List.length_append, List.length_append, List.length_flatten] at hsize
  omega

/-- Every section is read back. -/
lemma reads_sections {m : CodeModule} (hm : ∀ f ∈ m.functions, f.IsNumbered)
    (hsize : m.encode.length < 2 ^ 32) :
    List.Forall₂ (fun input s => input ≠ [] ∧ Reads moduleSection input s) m.storedSections
      m.sections := by
  have hvariables : ∀ f ∈ m.functions, f.localNames.length < 2 ^ 32 := fun f hf =>
    (length_localNames_le hf).trans_lt
      (length_section_lt hsize 0 (by simp [CodeModule.storedSections]))
  refine List.rel_append (List.rel_append ?_ ?_) ?_
  · exact .cons ⟨by simp [Binary.tagged], reads_types (length_section_lt hsize 1
      (by simp [CodeModule.storedSections]))⟩ .nil
  · cases himports : m.importsMemory with
    | false => exact .nil
    | true =>
        exact .cons ⟨by simp [Binary.tagged], reads_imports (length_section_lt hsize 2
          (by simp [CodeModule.storedSections, himports]))⟩ .nil
  · refine .cons ⟨by simp [Binary.tagged], reads_functions (length_section_lt hsize 3
        (by simp [CodeModule.storedSections]))⟩
      (.cons ⟨by simp [Binary.tagged], reads_exports m (length_section_lt hsize 7
        (by simp [CodeModule.storedSections]))⟩
      (.cons ⟨by simp [Binary.tagged], reads_code (fun f hf => ?_) (fun f hf => ?_)
        (length_section_lt hsize 10 (by simp [CodeModule.storedSections]))⟩
      (.cons ⟨by simp [Binary.tagged], reads_names m (length_section_lt hsize 0
        (by simp [CodeModule.storedSections]))⟩ .nil)))
    · exact (hm f hf).locals_le.trans_lt (hvariables f hf)
    · exact (hm f hf).inRange (hvariables f hf)

/-- Decoding a stored module gives its sections, if its indices are not too large. -/
theorem decode_encode_of_isNumbered {m : CodeModule} (hm : ∀ f ∈ m.functions, f.IsNumbered)
    (hsize : m.encode.length < 2 ^ 32) : decode m.encode = some m.sections := by
  have hsections := consumes_untilEnd (reads_sections hm hsize)
  have horder : (m.sections.filterMap place?).Pairwise (· < ·) := by
    have hplaces : m.sections.filterMap place? =
        if m.importsMemory then [1, 2, 3, 7, 10] else [1, 3, 7, 10] := by
      rw [CodeModule.sections]
      cases m.importsMemory <;> rfl
    rw [hplaces]
    split <;> decide
  have hcounts : (m.sections.map typedFunctions).sum = (m.sections.map writtenFunctions).sum := by
    cases himports : m.importsMemory <;>
      simp [CodeModule.sections, himports, typedFunctions, writtenFunctions]
  have hrun : Decoder.sections m.encode = some (m.sections, []) := by
    rw [encode_eq, Decoder.sections, bind_eq_of_eq_some (reads_expect _ _),
      bind_eq_of_eq_some (reads_expect _ _), bind_eq_of_eq_some hsections, guard_bind horder,
      guard_bind hcounts]
    rfl
  rw [decode, StateT.run, hrun]
  rfl

/-! ### Lowered functions -/

/-- A function that came about by lowering, where the functions it can call have indices of
at most 32 bits. -/
def CompiledFunction.IsLowered (f : CompiledFunction) : Prop :=
  ∃ cx : LoweringContext, (∀ name index, cx.indices.find? name = some index → index < 2 ^ 32) ∧
    cx.lower = .ok f

open Lowering in
/-- The operations that lowering can emit have indices of at most 32 bits, if there are not
too many variables. -/
lemma Lowering.Emitted.inRange {cx : LoweringContext} {size : Nat} {o : Op}
    (h : Emitted cx size o)
    (hindices : ∀ name index, cx.indices.find? name = some index → index < 2 ^ 32)
    (hnames : cx.names.length ≤ size) (hsize : size < 2 ^ 32) : o.InRange := by
  have hslot : ∀ {name slot}, cx.names.idxOf? name = some slot → slot < 2 ^ 32 := by
    intro name slot hname
    obtain ⟨hlt, _⟩ := List.idxOf?_eq_some_iff.mp hname
    omega
  have hscratch : ∀ {held slot}, IsScratch cx size held slot → slot < 2 ^ 32 :=
    fun hslot => hslot.lt.trans hsize
  cases h with
  | get _ name_slot => exact hslot name_slot
  | set name_slot => exact hslot name_slot
  | scratchGet scratch => exact hscratch scratch
  | scratchSet scratch => exact hscratch scratch
  | scratchTee scratch => exact hscratch scratch
  | call callee_index => exact hindices _ _ callee_index
  | exit => exact Nat.two_pow_pos 32
  | back => exact Nat.one_lt_two_pow (by decide)
  | _ => trivial

/-- A lowered function has no more local variables than names, and indices that fit. -/
lemma CompiledFunction.IsLowered.isNumbered {f : CompiledFunction} (h : f.IsLowered) :
    f.IsNumbered := by
  obtain ⟨cx, hindices, hlower⟩ := h
  have hevery := Lowering.lower_every hlower
  obtain ⟨code, count, _, rfl⟩ := Lowering.lower_eq_ok hlower
  have hsize : (cx.names ++ Lowering.scratchNames count).length = cx.names.length + count := by
    simp [Lowering.scratchNames]
  constructor
  · dsimp only
    rw [hsize, List.length_append, List.length_replicate, Lowering.localTypes, List.length_map,
      List.length_drop]
    omega
  · intro hlength
    dsimp only at hlength hevery
    refine hevery.mono fun o ho => ho.inRange hindices ?_ hlength
    omega

/-! ### Modules are told apart -/

lemma byIndex_injective {α : Type} {xs ys : List α} (h : byIndex xs = byIndex ys) : xs = ys := by
  have hsnd : ∀ zs : List α, (byIndex zs).map Prod.snd = zs := by
    intro zs
    rw [byIndex, List.map_map]
    exact List.zipIdx_map_fst 0 zs
  rw [← hsnd xs, h, hsnd]

/-- Functions that agree in all that is stored of them are the same. -/
lemma functions_eq_of_parts : ∀ {fs fs' : List CompiledFunction},
    (fs.map fun f => (f.params, [f.result])) = (fs'.map fun f => (f.params, [f.result])) →
    (fs.map fun f => (f.locals, f.body)) = (fs'.map fun f => (f.locals, f.body)) →
    fs.map (·.name) = fs'.map (·.name) →
    (fs.map fun f => byIndex f.localNames) = (fs'.map fun f => byIndex f.localNames) → fs = fs'
  | [], [], _, _, _, _ => rfl
  | [], _ :: _, h, _, _, _ => by cases h
  | _ :: _, [], h, _, _, _ => by cases h
  | f :: fs, f' :: fs', htypes, hcode, hname, hlocals => by
      simp only [List.map_cons, List.cons.injEq, Prod.mk.injEq, and_true]
        at htypes hcode hname hlocals
      have hhead : f = f' := by
        obtain ⟨name, params, result, locals, localNames, body⟩ := f
        obtain ⟨name', params', result', locals', localNames', body'⟩ := f'
        simp only at htypes hcode hname hlocals
        obtain ⟨⟨rfl, rfl⟩, _⟩ := htypes
        obtain ⟨⟨rfl, rfl⟩, _⟩ := hcode
        obtain ⟨rfl, _⟩ := hname
        rw [byIndex_injective hlocals.1]
      rw [hhead, functions_eq_of_parts htypes.2 hcode.2 hname.2 hlocals.2]

/-- A module is told by its sections. -/
lemma sections_injective {m m' : CodeModule} (h : m'.sections = m.sections) : m' = m := by
  obtain ⟨fs, imports⟩ := m
  obtain ⟨fs', imports'⟩ := m'
  have himports : imports' = imports := by
    have hlength := congrArg List.length h
    cases imports <;> cases imports' <;> simp [CodeModule.sections] at hlength <;> rfl
  subst himports
  have hfunctions : fs' = fs := by
    cases imports' <;>
      simp only [CodeModule.sections, if_true, if_false, List.cons_append, List.nil_append,
        List.cons.injEq, Section.types.injEq, Section.code.injEq, Section.names.injEq,
        NameEntry.functions.injEq, NameEntry.locals.injEq, and_true, true_and,
        Bool.false_eq_true] at h
    · exact functions_eq_of_parts h.1 h.2.2.2.1 (byIndex_injective h.2.2.2.2.1)
        (byIndex_injective h.2.2.2.2.2)
    · exact functions_eq_of_parts h.1 h.2.2.2.1 (byIndex_injective h.2.2.2.2.1)
        (byIndex_injective h.2.2.2.2.2)
  rw [hfunctions]

/-- Decoding a stored module of lowered functions succeeds and gives exactly its sections,
and different modules of lowered functions are stored differently. -/
theorem decode_encode {m : CodeModule} (hm : ∀ f ∈ m.functions, f.IsLowered)
    (hsize : m.encode.length < 2 ^ 32) :
    decode m.encode = some m.sections ∧
      ∀ m' : CodeModule, (∀ f ∈ m'.functions, f.IsLowered) → m'.encode = m.encode → m' = m := by
  have hdecode : ∀ m' : CodeModule, (∀ f ∈ m'.functions, f.IsLowered) →
      m'.encode.length < 2 ^ 32 → decode m'.encode = some m'.sections := fun m' hm' hsize' =>
    decode_encode_of_isNumbered (fun f hf => (hm' f hf).isNumbered) hsize'
  refine ⟨hdecode m hm hsize, fun m' hm' hsame => sections_injective ?_⟩
  have hread := hdecode m' hm' (hsame ▸ hsize)
  rw [hsame, hdecode m hm hsize] at hread
  exact (Option.some.inj hread).symm

/-- A function that calls itself, as it is lowered. -/
def callingContext : LoweringContext where
  function := ⟨some "f", [⟨.identifier "n", none⟩], none,
    [.ret (some (.binary 0 .add (.identifier 1 "n")
      (.call 2 (.identifier 3 "f") [.identifier 4 "n"])))]⟩
  signature := ⟨[.int32], .int32⟩
  table := Table.ofList [("f", ⟨[.int32], .int32⟩)]
  mapping := ((VariableMapping.startingAt 0).declare "n").2
  firstSlot_eq := rfl
  typing := ⟨Table.ofList [("n", .int32)],
    Table.ofList [(0, .int32), (1, .int32), (2, .int32), (4, .int32)]⟩
  indices := Table.ofList [("f", 0)]

theorem callingContext_decoded :
    ∃ f, callingContext.lower = .ok f ∧
      decode (CodeModule.encode ⟨[f], true⟩) = some (CodeModule.sections ⟨[f], true⟩) := by
  obtain ⟨f, hf, hsize⟩ : ∃ f, callingContext.lower = .ok f ∧
      (CodeModule.encode ⟨[f], true⟩).length < 2 ^ 32 := ⟨_, rfl, by decide +kernel⟩
  have hlowered : f.IsLowered := by
    refine ⟨callingContext, fun name index hindex => ?_, hf⟩
    have hmem := Table.mem_of_find?_ofList hindex
    simp only [List.mem_singleton, Prod.mk.injEq] at hmem
    omega
  exact ⟨f, hf, (decode_encode (by simpa using hlowered) hsize).1⟩

end ArrayScript
