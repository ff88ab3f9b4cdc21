import Mathlib.Data.List.Forall2
import Stencil.Xml.Tree

/-!
# Trees and their texts

A tree is built from events.  Its texts are those of the events, in their order.  When the texts
of the events are changed, where one that becomes empty may be missing, the tree that is built
differs from the first one in its texts only.
-/

namespace Stencil.Xml

/-- The text of an event, if it is one. -/
def Event.text? : Event → Option (List Char)
  | text content => some content
  | _ => none

/-- Lists of events that differ in their texts: the texts of the first one are changed in the
second one, which may lack those that become empty. -/
inductive Retexted (change : List Char → List Char) : List Event → List Event → Prop
  | nil : Retexted change [] []
  | text {events events' : List Event} (content : List Char) :
      Retexted change events events' →
        Retexted change (.text content :: events) (.text (change content) :: events')
  | emptied {events events' : List Event} {content : List Char} :
      change content = [] → Retexted change events events' →
        Retexted change (.text content :: events) events'
  | other {events events' : List Event} {event : Event} :
      event.text? = none → Retexted change events events' →
        Retexted change (event :: events) (event :: events')

namespace Retexted

variable {change : List Char → List Char} {events events' behind behind' : List Event}

theorem append (front : Retexted change events events') (back : Retexted change behind behind') :
    Retexted change (events ++ behind) (events' ++ behind') := by
  induction front with
  | nil => exact back
  | text content _ ih => exact .text content ih
  | emptied empty _ ih => exact .emptied empty ih
  | other noText _ ih => exact .other noText ih

theorem of_noText (noText : ∀ event ∈ events, event.text? = none) :
    Retexted change events events := by
  induction events with
  | nil => exact .nil
  | cons event events ih =>
      rcases List.forall_mem_cons.mp noText with ⟨first, others⟩
      exact .other first (ih others)

theorem reverse (retexted : Retexted change events events') :
    Retexted change events.reverse events'.reverse := by
  induction retexted with
  | nil => exact .nil
  | text content _ ih =>
      rw [List.reverse_cons, List.reverse_cons]
      exact ih.append (.text content .nil)
  | emptied empty _ ih =>
      have joined := ih.append (.emptied empty .nil)
      rwa [List.append_nil, ← List.reverse_cons] at joined
  | other noText _ ih =>
      rw [List.reverse_cons, List.reverse_cons]
      exact ih.append (.other noText .nil)

end Retexted

namespace Node

/-- Tells whether a node is an empty text. -/
def isEmptyText : Node → Bool
  | text content => content.toList.isEmpty
  | _ => false

mutual

/-- The tree with all its texts changed, and without those that are empty then. -/
def withTexts (change : List Char → List Char) : Node → Node
  | element name attributes children => element name attributes (withTextsAll change children)
  | text content => text (String.ofList (change content.toList))
  | aside => aside

/-- The trees with all their texts changed, and without those that are empty then. -/
def withTextsAll (change : List Char → List Char) : List Node → List Node
  | [] => []
  | child :: rest =>
    if (withTexts change child).isEmptyText then withTextsAll change rest
    else withTexts change child :: withTextsAll change rest

end

mutual

/-- The texts of a tree. -/
def texts : Node → List (List Char)
  | element _ _ children => textsAll children
  | text content => [content.toList]
  | aside => []

/-- The texts of some trees. -/
def textsAll : List Node → List (List Char)
  | [] => []
  | child :: rest => texts child ++ textsAll rest

end

variable {change change' : List Char → List Char}

theorem withTextsAll_append (nodes others : List Node) :
    withTextsAll change (nodes ++ others) =
      withTextsAll change nodes ++ withTextsAll change others := by
  induction nodes with
  | nil => rfl
  | cons child rest ih =>
      rw [List.cons_append, withTextsAll, withTextsAll, ih]
      split
      · rfl
      · rw [List.cons_append]

theorem withTextsAll_reverse (nodes : List Node) :
    withTextsAll change nodes.reverse = (withTextsAll change nodes).reverse := by
  induction nodes with
  | nil => rfl
  | cons child rest ih =>
      rw [List.reverse_cons, withTextsAll_append, ih, withTextsAll, withTextsAll, withTextsAll]
      split
      · rw [List.append_nil]
      · rw [List.reverse_cons]

theorem textsAll_append (nodes others : List Node) :
    textsAll (nodes ++ others) = textsAll nodes ++ textsAll others := by
  induction nodes with
  | nil => rfl
  | cons child rest ih => rw [List.cons_append, textsAll, textsAll, ih, List.append_assoc]

theorem isEmptyText_text (content : List Char) :
    isEmptyText (text (String.ofList content)) = content.isEmpty := by
  rw [isEmptyText, String.toList_ofList]

end Node

namespace Frame

/-- The texts of the children so far. -/
def texts (frame : Frame) : List (List Char) :=
  Node.textsAll frame.children.reverse

theorem texts_push (frame : Frame) (child : Node) :
    (frame.push child).texts = frame.texts ++ child.texts := by
  rw [texts, push, List.reverse_cons, Node.textsAll_append, Node.textsAll, Node.textsAll,
    List.append_nil, texts]

theorem children_start? {scope : Scope} {written : QName} {attributes : List (QName × List Char)}
    {frame : Frame} (started : start? scope written attributes = some frame) :
    frame.children = [] := by
  unfold start? at started
  split at started
  · cases started
  · obtain ⟨inner, _, named⟩ := Option.bind_eq_some_iff.mp started
    obtain ⟨name, _, read⟩ := Option.bind_eq_some_iff.mp named
    obtain ⟨plain, _, checked⟩ := Option.bind_eq_some_iff.mp read
    split at checked
    · cases checked
    · cases checked
      rfl

theorem texts_start? {scope : Scope} {written : QName} {attributes : List (QName × List Char)}
    {frame : Frame} (started : start? scope written attributes = some frame) :
    frame.texts = [] := by
  rw [texts, children_start? started, List.reverse_nil, Node.textsAll]

theorem texts_finish (frame : Frame) : frame.finish.texts = frame.texts := by
  rw [finish, Node.texts, texts]

/-- Frames of one element whose children so far differ in their texts. -/
structure Retexted (change : List Char → List Char) (frame frame' : Frame) : Prop where
  written_eq : frame'.written = frame.written
  name_eq : frame'.name = frame.name
  attributes_eq : frame'.attributes = frame.attributes
  scope_eq : frame'.scope = frame.scope
  children_eq : Node.withTextsAll id frame'.children = Node.withTextsAll change frame.children

namespace Retexted

variable {change : List Char → List Char} {frame frame' : Frame} {child child' : Node}

theorem push (frames : Retexted change frame frame')
    (children : child'.withTexts id = child.withTexts change) :
    Retexted change (frame.push child) (frame'.push child') where
  written_eq := frames.written_eq
  name_eq := frames.name_eq
  attributes_eq := frames.attributes_eq
  scope_eq := frames.scope_eq
  children_eq := by
    simp only [Frame.push, Node.withTextsAll, children, frames.children_eq]

theorem push_emptied (frames : Retexted change frame frame') {content : List Char}
    (empty : change content = []) :
    Retexted change (frame.push (.text (String.ofList content))) frame' where
  written_eq := frames.written_eq
  name_eq := frames.name_eq
  attributes_eq := frames.attributes_eq
  scope_eq := frames.scope_eq
  children_eq := by
    rw [Frame.push, Node.withTextsAll, Node.withTexts, String.toList_ofList, empty,
      Node.isEmptyText_text, List.isEmpty_nil, if_pos rfl, frames.children_eq]

theorem finish (frames : Retexted change frame frame') :
    frame'.finish.withTexts id = frame.finish.withTexts change := by
  rw [Frame.finish, Frame.finish, Node.withTexts, Node.withTexts, Node.withTextsAll_reverse,
    Node.withTextsAll_reverse, frames.children_eq, frames.name_eq, frames.attributes_eq]

end Retexted

end Frame

namespace Node

variable {change : List Char → List Char}

/-- From events that are changed in their texts, a tree is built that is changed in its texts. -/
theorem build_retexted {frames frames' : List Frame} {events events' : List Event} {root : Node}
    (built : build frames events = some root) (retexted : Xml.Retexted change events events')
    (alike : List.Forall₂ (Frame.Retexted change) frames frames') :
    ∃ root', build frames' events' = some root' ∧ root'.withTexts id = root.withTexts change := by
  fun_induction build frames events generalizing frames' events' with
  -- the cases in which no tree is built
  | case1 | case2 | case4 | case5 | case8 | case11 => cases built
  | case3 frames name attributes rest shallow frame started ih =>
      cases retexted with | other _ retexted =>
      have shallow' : ¬Frame.depthLimit < frames'.length := by rwa [← alike.length_eq]
      have scope_eq : frames'.head?.map (·.scope) = frames.head?.map (·.scope) := by
        cases alike with
        | nil => rfl
        | cons inner _ => exact congrArg some inner.scope_eq
      rw [build, if_neg shallow', scope_eq, started]
      refine ih built retexted (.cons ⟨rfl, rfl, rfl, rfl, ?_⟩ alike)
      rw [Frame.children_start? started]
      rfl
  -- the end of the root element, then that of an inner one
  | case6 frame name same =>
      cases retexted with | other _ retexted =>
      cases retexted
      cases alike with | cons inner outer =>
      cases outer
      cases built
      rw [build, inner.written_eq, if_neg same]
      exact ⟨_, rfl, inner.finish⟩
  | case7 frame name same outer frames rest ih =>
      cases retexted with | other _ retexted =>
      cases alike with | cons inner outers =>
      cases outers with | cons next others =>
      rw [build, inner.written_eq, if_neg same]
      exact ih built retexted (.cons (next.push inner.finish) others)
  | case9 frame frames content rest ih =>
      cases alike with | cons inner others =>
      cases retexted with
      | text content retexted =>
          rw [build]
          refine ih built retexted (.cons (inner.push ?_) others)
          rw [withTexts, withTexts, String.toList_ofList, String.toList_ofList, id]
      | emptied empty retexted =>
          exact ih built retexted (.cons (inner.push_emptied empty) others)
      | other noText => cases noText
  | case10 frame frames rest ih =>
      cases retexted with | other _ retexted =>
      cases alike with | cons inner others =>
      rw [build]
      exact ih built retexted (.cons (inner.push rfl) others)

/-- The texts of a tree are those of its events. -/
theorem texts_build {frames : List Frame} {events : List Event} {root : Node}
    (built : build frames events = some root) :
    root.texts = frames.reverse.flatMap Frame.texts ++ events.filterMap Event.text? := by
  fun_induction build frames events with
  | case1 | case2 | case4 | case5 | case8 | case11 => cases built
  | case3 frames name attributes rest shallow frame started ih =>
      rw [ih built, List.filterMap_cons_none rfl]
      simp [Frame.texts_start? started]
  | case6 frame name same =>
      cases built
      rw [List.filterMap_cons_none rfl]
      simp [Frame.texts_finish]
  | case7 frame name same outer frames rest ih =>
      rw [ih built, List.filterMap_cons_none rfl]
      simp [Frame.texts_push, Frame.texts_finish]
  | case9 frame frames content rest ih =>
      rw [ih built]
      simp [Frame.texts_push, texts, Event.text?]
  | case10 frame frames rest ih =>
      rw [ih built, List.filterMap_cons_none rfl]
      simp [Frame.texts_push, texts]

end Node

end Stencil.Xml
