import Stencil.Word.Document

/-!
# Changing the paragraphs of a document

A change goes to every paragraph, wherever it stands, with the number of its visits.  So
the paragraphs of a changed document are the changed paragraphs in the same order, and two
changes that agree on the paragraphs of a document change it in the same way.  A paragraph is
visited whenever all cells around it span a column.
-/

namespace Stencil.Word

/-- A changed paragraph, with its visits. -/
def changed (change : Nat → List Inline → List Inline) (paragraph : Nat × List Inline) :
    Nat × List Inline :=
  (paragraph.1, change paragraph.1 paragraph.2)

namespace Block

variable (change : Nat → List Inline → List Inline)

mutual

theorem paragraphs_mapParagraphs (visits : Nat) (block : Block) :
    paragraphs visits (mapParagraphs change visits block) =
      (paragraphs visits block).map (changed change) := by
  cases block with
  | paragraph inlines => rfl
  | table rows => exact paragraphsOfRows_mapRows visits rows

theorem paragraphsOf_mapBlocks (visits : Nat) (blocks : List Block) :
    paragraphsOf visits (mapBlocks change visits blocks) =
      (paragraphsOf visits blocks).map (changed change) := by
  cases blocks with
  | nil => rfl
  | cons block rest =>
      rw [mapBlocks, paragraphsOf, paragraphsOf, List.map_append,
        paragraphs_mapParagraphs visits block, paragraphsOf_mapBlocks visits rest]

theorem paragraphsOfCells_mapCells (visits : Nat) (cells : List Cell) :
    paragraphsOfCells visits (mapCells change visits cells) =
      (paragraphsOfCells visits cells).map (changed change) := by
  cases cells with
  | nil => rfl
  | cons cell rest =>
      cases cell with
      | cell span blocks =>
          rw [mapCells, paragraphsOfCells, paragraphsOfCells, List.map_append,
            paragraphsOf_mapBlocks (visits * span) blocks, paragraphsOfCells_mapCells visits rest]

theorem paragraphsOfRows_mapRows (visits : Nat) (rows : List (List Cell)) :
    paragraphsOfRows visits (mapRows change visits rows) =
      (paragraphsOfRows visits rows).map (changed change) := by
  cases rows with
  | nil => rfl
  | cons row rest =>
      rw [mapRows, paragraphsOfRows, paragraphsOfRows, List.map_append,
        paragraphsOfCells_mapCells visits row, paragraphsOfRows_mapRows visits rest]

end

variable {change : Nat → List Inline → List Inline} {change' : Nat → List Inline → List Inline}

/-- Two changes agree on some paragraphs. -/
def AgreeOn (change change' : Nat → List Inline → List Inline)
    (paragraphs : List (Nat × List Inline)) : Prop :=
  ∀ paragraph ∈ paragraphs, change paragraph.1 paragraph.2 = change' paragraph.1 paragraph.2

theorem AgreeOn.of_append {first second : List (Nat × List Inline)}
    (agree : AgreeOn change change' (first ++ second)) :
    AgreeOn change change' first ∧ AgreeOn change change' second :=
  List.forall_mem_append.mp agree

mutual

theorem mapParagraphs_congr {visits : Nat} {block : Block}
    (agree : AgreeOn change change' (paragraphs visits block)) :
    mapParagraphs change visits block = mapParagraphs change' visits block := by
  cases block with
  | paragraph inlines => exact congrArg paragraph (agree (visits, inlines) List.mem_cons_self)
  | table rows => exact congrArg table (mapRows_congr agree)

theorem mapBlocks_congr {visits : Nat} {blocks : List Block}
    (agree : AgreeOn change change' (paragraphsOf visits blocks)) :
    mapBlocks change visits blocks = mapBlocks change' visits blocks := by
  cases blocks with
  | nil => rfl
  | cons block rest =>
      rcases agree.of_append with ⟨here, later⟩
      rw [mapBlocks, mapBlocks, mapParagraphs_congr here, mapBlocks_congr later]

theorem mapCells_congr {visits : Nat} {cells : List Cell}
    (agree : AgreeOn change change' (paragraphsOfCells visits cells)) :
    mapCells change visits cells = mapCells change' visits cells := by
  cases cells with
  | nil => rfl
  | cons cell rest =>
      cases cell with
      | cell span blocks =>
          rcases agree.of_append with ⟨here, later⟩
          rw [mapCells, mapCells, mapBlocks_congr here, mapCells_congr later]

theorem mapRows_congr {visits : Nat} {rows : List (List Cell)}
    (agree : AgreeOn change change' (paragraphsOfRows visits rows)) :
    mapRows change visits rows = mapRows change' visits rows := by
  cases rows with
  | nil => rfl
  | cons row rest =>
      rcases agree.of_append with ⟨here, later⟩
      rw [mapRows, mapRows, mapCells_congr here, mapRows_congr later]

end

mutual

/-- Every cell within a block spans a column at least. -/
def SpansColumns : Block → Prop
  | paragraph _ => True
  | table rows => RowsSpanColumns rows

/-- Every cell within several blocks spans a column at least. -/
def BlocksSpanColumns : List Block → Prop
  | [] => True
  | block :: rest => SpansColumns block ∧ BlocksSpanColumns rest

/-- Every cell of a row, and within it, spans a column at least. -/
def CellsSpanColumns : List Cell → Prop
  | [] => True
  | .cell span blocks :: rest => 0 < span ∧ BlocksSpanColumns blocks ∧ CellsSpanColumns rest

/-- Every cell of some rows, and within them, spans a column at least. -/
def RowsSpanColumns : List (List Cell) → Prop
  | [] => True
  | row :: rest => CellsSpanColumns row ∧ RowsSpanColumns rest

end

mutual

theorem visited_of_spansColumns {visits : Nat} (visited : 0 < visits) {block : Block}
    (spans : SpansColumns block) : ∀ paragraph ∈ paragraphs visits block, 0 < paragraph.1 := by
  cases block with
  | paragraph inlines =>
      intro paragraph paragraphMem
      rw [List.mem_singleton.mp paragraphMem]
      exact visited
  | table rows => exact visited_of_rowsSpanColumns visited spans

theorem visited_of_blocksSpanColumns {visits : Nat} (visited : 0 < visits) {blocks : List Block}
    (spans : BlocksSpanColumns blocks) :
    ∀ paragraph ∈ paragraphsOf visits blocks, 0 < paragraph.1 := by
  cases blocks with
  | nil => exact fun _ paragraphMem => absurd paragraphMem List.not_mem_nil
  | cons block rest =>
      rcases spans with ⟨here, later⟩
      exact List.forall_mem_append.mpr
        ⟨visited_of_spansColumns visited here, visited_of_blocksSpanColumns visited later⟩

theorem visited_of_cellsSpanColumns {visits : Nat} (visited : 0 < visits) {cells : List Cell}
    (spans : CellsSpanColumns cells) :
    ∀ paragraph ∈ paragraphsOfCells visits cells, 0 < paragraph.1 := by
  cases cells with
  | nil => exact fun _ paragraphMem => absurd paragraphMem List.not_mem_nil
  | cons cell rest =>
      cases cell with
      | cell span blocks =>
          rcases spans with ⟨spanned, here, later⟩
          exact List.forall_mem_append.mpr
            ⟨visited_of_blocksSpanColumns (Nat.mul_pos visited spanned) here,
              visited_of_cellsSpanColumns visited later⟩

theorem visited_of_rowsSpanColumns {visits : Nat} (visited : 0 < visits)
    {rows : List (List Cell)} (spans : RowsSpanColumns rows) :
    ∀ paragraph ∈ paragraphsOfRows visits rows, 0 < paragraph.1 := by
  cases rows with
  | nil => exact fun _ paragraphMem => absurd paragraphMem List.not_mem_nil
  | cons row rest =>
      rcases spans with ⟨here, later⟩
      exact List.forall_mem_append.mpr
        ⟨visited_of_cellsSpanColumns visited here, visited_of_rowsSpanColumns visited later⟩

end

end Block

namespace Document

open Block

theorem slotContents_mapParagraphs (change : Nat → List Inline → List Inline)
    (document : Document) :
    (document.mapParagraphs change).slotContents =
      document.slotContents.map (mapBlocks change 1) := by
  simp only [slotContents, mapParagraphs, List.flatMap_map, List.map_flatMap, List.map_map]
  rfl

/-- The paragraphs of a changed document are the changed paragraphs. -/
theorem paragraphs_mapParagraphs (change : Nat → List Inline → List Inline)
    (document : Document) :
    (document.mapParagraphs change).paragraphs = document.paragraphs.map (changed change) := by
  rw [paragraphs, slotContents_mapParagraphs, List.flatMap_map, paragraphs, List.map_append,
    List.map_flatMap]
  congr 1
  · exact paragraphsOf_mapBlocks change 1 document.body
  · simp only [paragraphsOf_mapBlocks]

/-- Changes that agree on the paragraphs of a document change it in the same way. -/
theorem mapParagraphs_congr {change change' : Nat → List Inline → List Inline}
    {document : Document} (agree : AgreeOn change change' document.paragraphs) :
    document.mapParagraphs change = document.mapParagraphs change' := by
  rcases agree.of_append with ⟨inBody, inSlots⟩
  have sections_eq : (document.mapParagraphs change).sections =
      (document.mapParagraphs change').sections := by
    apply List.map_congr_left
    intro own ownMem
    apply List.map_congr_left
    rintro ⟨slot, blocks⟩ slotMem
    have contentMem : blocks ∈ document.slotContents :=
      List.mem_flatMap.mpr ⟨own, ownMem, List.mem_map_of_mem slotMem⟩
    have blocks_eq : mapBlocks change 1 blocks = mapBlocks change' 1 blocks :=
      mapBlocks_congr fun paragraph paragraphMem =>
        inSlots paragraph (List.mem_flatMap.mpr ⟨blocks, contentMem, paragraphMem⟩)
    exact congrArg (slot, ·) blocks_eq
  rw [mapParagraphs, mapParagraphs, Document.mk.injEq]
  exact ⟨mapBlocks_congr inBody, sections_eq⟩

/-- Every cell of a document spans a column at least. -/
def SpansColumns (document : Document) : Prop :=
  BlocksSpanColumns document.body ∧ ∀ blocks ∈ document.slotContents, BlocksSpanColumns blocks

/-- Where every cell spans a column, every paragraph is visited. -/
theorem visited_of_spansColumns {document : Document} (spans : document.SpansColumns) :
    ∀ paragraph ∈ document.paragraphs, 0 < paragraph.1 := by
  rcases spans with ⟨inBody, inSlots⟩
  intro paragraph paragraphMem
  rcases List.mem_append.mp paragraphMem with body | slot
  · exact visited_of_blocksSpanColumns Nat.one_pos inBody paragraph body
  · rcases List.mem_flatMap.mp slot with ⟨blocks, blocksMem, paragraphMem⟩
    exact visited_of_blocksSpanColumns Nat.one_pos (inSlots blocks blocksMem) paragraph paragraphMem

end Document

end Stencil.Word
