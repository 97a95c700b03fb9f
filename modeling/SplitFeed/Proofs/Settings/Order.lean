/-
# The order of keys

Every table that a document defines, and every table that variables make, has its keys in ascending
order.  Entries are only ever put into tables, which keeps the order; what is left to show is that
nothing else makes a table, neither the reading of a document nor the joining of layers.
-/
import SplitFeed.Settings.Load

namespace SplitFeed

namespace Entries

variable {α : Type} {p : α → Prop} {key : String} {value : α} {entries : Entries α}

/-- Keys in ascending order, with something good under each of them. -/
structure InOrder (p : α → Prop) (entries : Entries α) : Prop where
  ascending : entries.Pairwise (·.1 < ·.1)
  each : ∀ entry ∈ entries, p entry.2

namespace InOrder

theorem nil : InOrder p ([] : Entries α) := ⟨.nil, by simp⟩

theorem put (h : InOrder p entries) (hvalue : p value) : InOrder p (entries.put key value) where
  ascending := pairwise_put h.ascending
  each entry hmem := by
    rcases mem_put hmem with rfl | hold
    · exact hvalue
    · exact h.each entry hold

/-- Keys in ascending order are distinct. -/
theorem nodup (h : InOrder p entries) : (entries.map (·.1)).Nodup :=
  (List.pairwise_map.2 h.ascending).imp fun hlt heq => by subst heq; exact String.lt_irrefl _ hlt

end InOrder

theorem mem_of_find? (h : entries.find? key = some value) : (key, value) ∈ entries := by
  induction entries with
  | nil => simp [find?] at h
  | cons entry rest ih =>
    obtain ⟨head, first⟩ := entry
    simp only [find?] at h
    split at h
    · next heq =>
        cases h
        exact heq ▸ List.mem_cons_self
    · exact List.mem_cons_of_mem _ (ih h)

theorem InOrder.find? (h : InOrder p entries) (hfound : entries.find? key = some value) :
    p value :=
  h.each _ (mem_of_find? hfound)

end Entries

/-! ### Reading something good off a text -/

namespace Scan

variable {α β : Type} {p : α → Prop} {q : β → Prop} {scan : Scan α}

/-- Whatever a scanner reads is good. -/
def Reads (p : α → Prop) (scan : Scan α) : Prop :=
  ∀ ⦃input : List Char⦄ ⦃a : α⦄ ⦃rest : List Char⦄, scan input = some (a, rest) → p a

theorem reads_pure {a : α} (h : p a) : Reads p (pure a : Scan α) := by
  intro input b rest hread
  cases hread
  exact h

theorem reads_failure : Reads p (failure : Scan α) := by
  intro input a rest hread
  cases hread

theorem reads_bind {next : α → Scan β} (hscan : Reads p scan)
    (hnext : ∀ a, p a → Reads q (next a)) : Reads q (scan >>= next) := by
  intro input b rest hread
  change (scan input).bind (fun result => next result.1 result.2) = some (b, rest) at hread
  obtain ⟨⟨a, between⟩, hfirst, hsecond⟩ := Option.bind_eq_some_iff.1 hread
  exact hnext a (hscan hfirst) hsecond

theorem reads_refuse {next : α → Scan β} : Reads q (failure >>= next) := by
  intro input b rest hread
  cases hread

/-- Where nothing is known of what comes first. -/
theorem reads_then {next : α → Scan β} (hnext : ∀ a, Reads q (next a)) :
    Reads q (scan >>= next) :=
  reads_bind (p := fun _ => True) (fun _ _ _ _ => trivial) fun a _ => hnext a

theorem reads_orElse {other : Scan α} (hscan : Reads p scan) (hother : Reads p other) :
    Reads p (scan <|> other) := by
  intro input a rest hread
  change (scan input <|> other input) = some (a, rest) at hread
  cases hfirst : scan input with
  | some result =>
    rw [hfirst] at hread
    cases hread
    exact hscan hfirst
  | none =>
    rw [hfirst] at hread
    exact hother hread

theorem reads_ite {c : Prop} [Decidable c] {other : Scan α} (hscan : Reads p scan)
    (hother : Reads p other) : Reads p (if c then scan else other) := by
  split <;> assumption

theorem reads_lift {result : Option α} (h : ∀ a, result = some a → p a) :
    Reads p (StateT.lift result : Scan α) := by
  intro input a rest hread
  change result.bind (fun b => some (b, input)) = some (a, rest) at hread
  obtain ⟨b, hb, heq⟩ := Option.bind_eq_some_iff.1 hread
  cases heq
  exact h _ hb

theorem reads_upTo (hscan : Reads p scan) (times : Nat) :
    Reads (fun read => ∀ a ∈ read, p a) (upTo scan times) := by
  induction times with
  | zero => exact reads_pure (List.forall_mem_nil _)
  | succ times ih =>
    intro input read rest hread
    simp only [upTo] at hread
    split at hread
    · cases hread
      simp
    · next first between hfirst =>
        obtain ⟨⟨more, rest'⟩, hmore, heq⟩ := Option.bind_eq_some_iff.1 hread
        cases heq
        exact List.forall_mem_cons.2 ⟨hscan hfirst, ih hmore⟩

theorem reads_many (hscan : Reads p scan) : Reads (fun read => ∀ a ∈ read, p a) (many scan) :=
  fun _ _ _ hread => reads_upTo hscan _ hread

theorem reads_separated {separator : Scan β} (hscan : Reads p scan) :
    Reads (fun read => ∀ a ∈ read, p a) (separated scan separator) :=
  reads_bind hscan fun _ hfirst =>
    reads_bind (reads_many (reads_then fun _ => hscan)) fun _ hrest =>
      reads_pure (List.forall_mem_cons.2 ⟨hfirst, hrest⟩)

end Scan

/-! ### Documents -/

namespace Toml

/-- All tables in a node have their keys in ascending order. -/
inductive Node.IsOrdered : Node → Prop
  | text (text : String) : IsOrdered (.text text)
  | integer (value : Int) : IsOrdered (.integer value)
  | float (value : Float) : IsOrdered (.float value)
  | truth (value : Bool) : IsOrdered (.truth value)
  | moment (text : String) : IsOrdered (.moment text)
  | array {items : List Node} (each : ∀ item ∈ items, IsOrdered item) : IsOrdered (.array items)
  | table {standing : Standing} {entries : List (String × Node)}
      (ascending : entries.Pairwise (·.1 < ·.1)) (each : ∀ entry ∈ entries, IsOrdered entry.2) :
      IsOrdered (.table standing entries)
  | rows {tables : List Node} (each : ∀ table ∈ tables, IsOrdered table) : IsOrdered (.rows tables)

/-- A node that is a table in good order. -/
def Node.IsOrderedTable (node : Node) : Prop :=
  ∃ standing entries, node = .table standing entries ∧ Entries.InOrder Node.IsOrdered entries

theorem Node.IsOrderedTable.isOrdered {node : Node} (h : node.IsOrderedTable) :
    node.IsOrdered := by
  obtain ⟨standing, entries, rfl, horder⟩ := h
  exact .table horder.ascending horder.each

/-- A change makes ordered tables of ordered entries. -/
def Change.KeepsOrder (change : Change) : Prop :=
  ∀ ⦃standing : Standing⦄ ⦃entries : Entries Node⦄ ⦃node : Node⦄,
    Entries.InOrder Node.IsOrdered entries → change standing entries = some node →
    node.IsOrderedTable

namespace Node

variable {change : Change} {allowed : Standing → Bool} {node changed : Node} {body : Body}

theorem inOrder_of_isOrdered {standing : Standing} {entries : Entries Node}
    (h : IsOrdered (.table standing entries)) : Entries.InOrder IsOrdered entries := by
  cases h with
  | table ascending each => exact ⟨ascending, each⟩

/-- What a change makes of a table is a table. -/
theorem isOrderedTable_of_change? (hchange : change.KeepsOrder) (h : node.IsOrderedTable)
    (hchanged : node.change? allowed change = some changed) : changed.IsOrderedTable := by
  obtain ⟨standing, entries, rfl, horder⟩ := h
  simp only [change?] at hchanged
  split at hchanged
  · exact hchange horder hchanged
  · cases hchanged

theorem isOrdered_of_change? (hchange : change.KeepsOrder) (h : node.IsOrdered)
    (hchanged : node.change? allowed change = some changed) : changed.IsOrdered := by
  unfold change? at hchanged
  split at hchanged
  · exact (isOrderedTable_of_change? hchange ⟨_, _, rfl, inOrder_of_isOrdered h⟩ hchanged).isOrdered
  · cases h with
    | rows each =>
      obtain ⟨row, hrow, heq⟩ := Option.bind_eq_some_iff.1 hchanged
      cases heq
      have hlast := inOrder_of_isOrdered (each _ List.mem_cons_self)
      refine .rows (List.forall_mem_cons.2 ⟨(hchange hlast hrow).isOrdered, ?_⟩)
      exact fun table hmem => each table (List.mem_cons_of_mem _ hmem)
  · cases hchanged

/-- Putting a node under a key. -/
theorem isOrderedTable_put {standing : Standing} {entries : Entries Node} {key : String}
    (h : Entries.InOrder IsOrdered entries) (hnode : node.IsOrdered) :
    IsOrderedTable (.table standing (entries.put key node)) :=
  ⟨_, _, rfl, h.put hnode⟩

theorem keepsOrder_under (key : String) (fresh : Standing) (hchange : change.KeepsOrder) :
    Change.KeepsOrder (under key fresh allowed change) := by
  intro standing entries node h hmade
  unfold under at hmade
  split at hmade
  · obtain ⟨changed, hchanged, heq⟩ := Option.bind_eq_some_iff.1 hmade
    cases heq
    exact isOrderedTable_put h (hchange .nil hchanged).isOrdered
  · next found hfound =>
      obtain ⟨changed, hchanged, heq⟩ := Option.bind_eq_some_iff.1 hmade
      cases heq
      exact isOrderedTable_put h (isOrdered_of_change? hchange (h.find? hfound) hchanged)

theorem keepsOrder_enter (hnode : node.IsOrdered) (isDotted : Bool) (keys : List String) :
    Change.KeepsOrder (enter node isDotted keys) := by
  induction keys generalizing isDotted with
  | nil =>
    intro standing entries made _ hmade
    cases hmade
  | cons key rest ih =>
    cases rest with
    | nil =>
      intro standing entries made h hmade
      simp only [enter] at hmade
      split at hmade
      · cases hmade
      · cases hmade
        exact isOrderedTable_put h hnode
    | cons next rest => exact keepsOrder_under key .dotted (ih true)

/-- Whatever is named in a body is in good order. -/
def Body.IsOrdered (body : Body) : Prop := ∀ statement ∈ body, statement.2.IsOrdered

theorem keepsOrder_enterAll (hbody : body.IsOrdered) : Change.KeepsOrder (enterAll body) := by
  intro standing entries node h hmade
  have hstart : IsOrderedTable (.table standing entries) := ⟨_, _, rfl, h⟩
  unfold enterAll at hmade
  generalize Node.table standing entries = sofar at hstart hmade
  induction body generalizing sofar with
  | nil =>
    cases hmade
    exact hstart
  | cons statement rest ih =>
    obtain ⟨hfirst, hrest⟩ := List.forall_mem_cons.1 hbody
    obtain ⟨next, hnext, hlater⟩ := Option.bind_eq_some_iff.1 hmade
    have hordered := isOrderedTable_of_change? (keepsOrder_enter hfirst _ _) hstart hnext
    exact ih hrest next hordered hlater

theorem keepsOrder_head (hbody : body.IsOrdered) (key : String) :
    Change.KeepsOrder (head body key) := by
  intro standing entries node h hmade
  unfold head at hmade
  split at hmade
  · obtain ⟨sofar, hsofar, hrest⟩ := Option.bind_eq_some_iff.1 hmade
    obtain ⟨filled, hfilled, heq⟩ := Option.bind_eq_some_iff.1 hrest
    cases hsofar
    cases heq
    exact isOrderedTable_put h (keepsOrder_enterAll hbody .nil hfilled).isOrdered
  · next found hfound =>
      obtain ⟨sofar, hsofar, hrest⟩ := Option.bind_eq_some_iff.1 hmade
      obtain ⟨filled, hfilled, heq⟩ := Option.bind_eq_some_iff.1 hrest
      cases hsofar
      cases heq
      have horder := inOrder_of_isOrdered (h.find? hfound)
      exact isOrderedTable_put h (keepsOrder_enterAll hbody horder hfilled).isOrdered
  · cases hmade

theorem keepsOrder_addRow (hbody : body.IsOrdered) (key : String) :
    Change.KeepsOrder (addRow body key) := by
  intro standing entries node h hmade
  obtain ⟨row, hrow, hrest⟩ := Option.bind_eq_some_iff.1 hmade
  have hordered := (keepsOrder_enterAll hbody .nil hrow).isOrdered
  dsimp only at hrest
  split at hrest
  · cases hrest
    exact isOrderedTable_put h (.rows (by simpa using hordered))
  · next hfound =>
      cases hrest
      cases h.find? hfound with
      | rows each => exact isOrderedTable_put h (.rows (List.forall_mem_cons.2 ⟨hordered, each⟩))
  · cases hrest

theorem keepsOrder_along {finish : String → Change} (hfinish : ∀ key, (finish key).KeepsOrder)
    (keys : List String) : Change.KeepsOrder (along finish keys) := by
  induction keys with
  | nil =>
    intro standing entries made _ hmade
    cases hmade
  | cons key rest ih =>
    cases rest with
    | nil => exact hfinish key
    | cons next rest => exact keepsOrder_under key .implied ih

theorem isOrdered_of_inline (hbody : body.IsOrdered) (h : inline body = some node) :
    node.IsOrdered := by
  obtain ⟨whole, hwhole, hrest⟩ := Option.bind_eq_some_iff.1 h
  obtain ⟨standing, entries, rfl, horder⟩ := keepsOrder_enterAll hbody .nil hwhole
  cases hrest
  exact .table horder.ascending horder.each

end Node

/-- The tree of a document is a table in good order, if all that is named in its sections is. -/
theorem isOrderedTable_of_sections {first : Node.Body} {sections : List Section} {node : Node}
    (hfirst : first.IsOrdered) (hsections : ∀ part ∈ sections, part.body.IsOrdered)
    (h : Node.ofSections first sections = some node) : node.IsOrderedTable := by
  obtain ⟨root, hroot, hrest⟩ := Option.bind_eq_some_iff.1 h
  have hstart := Node.keepsOrder_enterAll hfirst .nil hroot
  clear hroot h
  induction sections generalizing root with
  | nil =>
    cases hrest
    exact hstart
  | cons part rest ih =>
    obtain ⟨hpart, hlater⟩ := List.forall_mem_cons.1 hsections
    obtain ⟨next, hnext, hend⟩ := Option.bind_eq_some_iff.1 hrest
    have hchange : part.enter.KeepsOrder := by
      unfold Section.enter
      split
      · exact Node.keepsOrder_along (Node.keepsOrder_addRow hpart) _
      · exact Node.keepsOrder_along (Node.keepsOrder_head hpart) _
    exact ih hlater next hend (Node.isOrderedTable_of_change? hchange hstart hnext)

open Scan

theorem reads_fitting (value : Int) : Reads Node.IsOrdered (fitting value) :=
  reads_ite (reads_pure (.integer value)) reads_failure

theorem reads_scalar : Reads Node.IsOrdered scalar := by
  have hmoment : Reads Node.IsOrdered moment := reads_then fun _ => reads_pure (.moment _)
  have hspecial : Reads Node.IsOrdered special :=
    reads_then fun _ => reads_then fun _ => reads_pure (.float _)
  have htruth : Reads Node.IsOrdered truth :=
    reads_orElse (reads_then fun _ => reads_pure (.truth _))
      (reads_then fun _ => reads_pure (.truth _))
  have hinteger : Reads Node.IsOrdered integer :=
    reads_orElse (reads_then fun _ => reads_then fun _ => reads_fitting _)
      (reads_orElse (reads_then fun _ => reads_then fun _ => reads_fitting _)
        (reads_orElse (reads_then fun _ => reads_then fun _ => reads_fitting _)
          (reads_then fun _ => reads_then fun _ => reads_fitting _)))
  have hfraction : Reads Node.IsOrdered fraction := by
    refine reads_then fun _ => reads_then fun _ => reads_then fun _ => reads_then fun _ => ?_
    refine reads_ite reads_refuse (reads_ite reads_refuse (reads_pure (.float _)))
  exact reads_orElse (reads_then fun _ => reads_pure (.text _))
    (reads_orElse hmoment (reads_orElse hfraction (reads_orElse hspecial
      (reads_orElse hinteger htruth))))

theorem reads_array {value : Scan Node} (hvalue : Reads Node.IsOrdered value) :
    Reads Node.IsOrdered (array value) := by
  refine reads_then fun _ => reads_bind (reads_orElse ?_ (reads_pure (List.forall_mem_nil _)))
    fun items hitems => reads_then fun _ => reads_then fun _ => reads_pure (.array hitems)
  have hitem : Reads Node.IsOrdered (do spacing; let node ← value; spacing; return node) :=
    reads_then fun _ => reads_bind hvalue fun _ hnode => reads_then fun _ => reads_pure hnode
  exact reads_bind (reads_separated hitem) fun items hitems => reads_then fun _ => reads_pure hitems

/-- A statement names something in good order. -/
theorem reads_pair {value : Scan Node} (hvalue : Reads Node.IsOrdered value) :
    Reads (fun entry => entry.2.IsOrdered) (pair value) :=
  reads_then fun _ => reads_then fun _ => reads_then fun _ =>
    reads_bind hvalue fun _ hnode => reads_pure hnode

theorem reads_inlineTable {value : Scan Node} (hvalue : Reads Node.IsOrdered value) :
    Reads Node.IsOrdered (inlineTable value) := by
  refine reads_then fun _ => reads_bind (p := Node.Body.IsOrdered) ?_ fun body hbody =>
    reads_then fun _ => reads_then fun _ => reads_lift fun _ => Node.isOrdered_of_inline hbody
  exact reads_orElse
    (reads_separated (reads_bind (reads_pair hvalue) fun _ h => reads_then fun _ => reads_pure h))
    (reads_pure (List.forall_mem_nil _))

theorem reads_value (depth : Nat) : Reads Node.IsOrdered (value depth) := by
  induction depth with
  | zero => exact reads_scalar
  | succ depth ih =>
    exact reads_orElse reads_scalar (reads_orElse (reads_array ih) (reads_inlineTable ih))

theorem reads_body : Reads Node.Body.IsOrdered body := by
  have hstatement : Reads (fun entry => entry.2.IsOrdered) statement :=
    reads_bind (reads_pair (reads_value _)) fun _ h => reads_then fun _ => reads_pure h
  have hline : Reads (fun line => ∀ entry, line = some entry → entry.2.IsOrdered)
      ((do emptyLine; return none) <|> (some <$> statement)) := by
    refine reads_orElse (reads_then fun _ => reads_pure (by simp)) ?_
    exact reads_bind hstatement fun _ h => reads_pure (by simpa using h)
  refine reads_bind (reads_many hline) fun lines hlines => reads_pure fun entry hmem => ?_
  obtain ⟨line, hline, rfl⟩ := List.mem_filterMap.1 hmem
  exact hlines _ hline entry rfl

/-- The tree of a document is a table, and all tables in it have their keys in order. -/
theorem isOrderedTable_of_read {text : String} {node : Node} (h : read text = some node) :
    node.IsOrderedTable := by
  obtain ⟨⟨first, sections⟩, hwhole, hnode⟩ := Option.bind_eq_some_iff.1 h
  have hchapter : Reads (fun part => part.body.IsOrdered) chapter :=
    reads_then fun _ => reads_bind reads_body fun _ hbody => reads_pure hbody
  have hdocument : Reads (fun parts : Node.Body × List Section =>
      parts.1.IsOrdered ∧ ∀ part ∈ parts.2, part.body.IsOrdered) document :=
    reads_then fun _ => reads_bind reads_body fun _ hfirst =>
      reads_bind (reads_many hchapter) fun _ hrest => reads_then fun _ => reads_then fun _ =>
        reads_then fun _ => reads_pure ⟨hfirst, hrest⟩
  unfold whole at hwhole
  split at hwhole
  · next hread =>
      cases hwhole
      obtain ⟨hfirst, hrest⟩ := hdocument hread
      exact isOrderedTable_of_sections hfirst hrest hnode
  · cases hwhole

end Toml

/-! ### Layers -/

namespace Value

/-- All tables in a value have their keys in ascending order. -/
inductive IsOrdered : Value → Prop
  | scalar (origin : Origin) (content : Scalar) : IsOrdered (.scalar origin content)
  | list {origin : Origin} {items : List Value} (each : ∀ item ∈ items, IsOrdered item) :
      IsOrdered (.list origin items)
  | table {origin : Origin} {entries : List (String × Value)}
      (ascending : entries.Pairwise (·.1 < ·.1)) (each : ∀ entry ∈ entries, IsOrdered entry.2) :
      IsOrdered (.table origin entries)

variable {origin : Origin} {entries : Entries Value}

theorem isOrdered_table_iff : IsOrdered (.table origin entries) ↔ entries.InOrder IsOrdered where
  mp h := by
    cases h with
    | table ascending each => exact ⟨ascending, each⟩
  mpr h := .table h.ascending h.each

/-- A value that is a table in good order, as whole layers are. -/
def IsLayer (layer : Value) : Prop :=
  ∃ origin entries, layer = .table origin entries ∧ Entries.InOrder IsOrdered entries

theorem IsLayer.isOrdered {layer : Value} (h : layer.IsLayer) : layer.IsOrdered := by
  obtain ⟨origin, entries, rfl, horder⟩ := h
  exact isOrdered_table_iff.2 horder

theorem isLayer_empty : IsLayer (.table origin []) := ⟨_, _, rfl, .nil⟩

mutual

/-- Joined values are in order. -/
theorem isOrdered_overlay {lower : Value} (hlower : lower.IsOrdered) :
    ∀ {upper : Value}, upper.IsOrdered → (lower.overlay upper).IsOrdered
  | .scalar _ _, h => h
  | .list _ _, h => h
  | .table _ upper, h => by
    unfold overlay
    split
    · exact isOrdered_table_iff.2
        (inOrder_overlayEntries (isOrdered_table_iff.1 hlower) (isOrdered_table_iff.1 h).each)
    · exact h

theorem inOrder_overlayEntries {lower : Entries Value} (hlower : lower.InOrder IsOrdered) :
    ∀ {upper : List (String × Value)}, (∀ entry ∈ upper, entry.2.IsOrdered) →
      Entries.InOrder IsOrdered (overlayEntries lower upper)
  | [], _ => hlower
  | (key, value) :: rest, h => by
    have hvalue : value.IsOrdered := h (key, value) List.mem_cons_self
    have hrest := inOrder_overlayEntries hlower fun entry hmem =>
      h entry (List.mem_cons_of_mem _ hmem)
    refine hrest.put ?_
    cases hfound : Entries.find? key lower with
    | none => exact hvalue
    | some hidden => exact isOrdered_overlay (hlower.find? hfound) hvalue

end

theorem IsLayer.overlay {lower upper : Value} (hlower : lower.IsLayer) (hupper : upper.IsLayer) :
    (lower.overlay upper).IsLayer := by
  obtain ⟨_, below, rfl, hbelow⟩ := hlower
  obtain ⟨_, above, rfl, habove⟩ := hupper
  exact ⟨_, _, rfl, inOrder_overlayEntries hbelow habove.each⟩

theorem isOrdered_under {path : List String} {value : Value} (h : value.IsOrdered) :
    (under origin path value).IsOrdered := by
  induction path with
  | nil => exact h
  | cons key rest ih =>
    exact .table (List.pairwise_singleton _ _) (List.forall_mem_singleton.2 ih)

theorem isLayer_under {path : List String} {value : Value} (hpath : path ≠ [])
    (h : value.IsOrdered) : (under origin path value).IsLayer := by
  cases path with
  | nil => exact absurd rfl hpath
  | cons key rest =>
    exact ⟨_, _, rfl, List.pairwise_singleton _ _, List.forall_mem_singleton.2 (isOrdered_under h)⟩

/-! #### The layer of a file -/

theorem keys_ofEntries {nodes : List (String × Toml.Node)} {entries : Entries Value}
    (h : ofEntries origin nodes = some entries) : entries.map (·.1) = nodes.map (·.1) := by
  induction nodes generalizing entries with
  | nil =>
    cases h
    rfl
  | cons node rest ih =>
    obtain ⟨value, -, hrest⟩ := Option.bind_eq_some_iff.1 h
    obtain ⟨more, hmore, heq⟩ := Option.bind_eq_some_iff.1 hrest
    cases heq
    simp [ih hmore]

mutual

theorem isOrdered_of_ofNode : ∀ {node : Toml.Node} {value : Value}, node.IsOrdered →
    ofNode origin node = some value → value.IsOrdered
  | .text _, _, _, h | .integer _, _, _, h | .float _, _, _, h | .truth _, _, _, h => by
    cases h
    exact .scalar _ _
  | .moment _, _, _, h => by
    cases h
    exact .table (List.pairwise_singleton _ _) (by simpa using .scalar _ _)
  | .array items, _, hnode, h => by
    obtain ⟨values, hvalues, heq⟩ := Option.bind_eq_some_iff.1 h
    cases heq
    cases hnode with
    | array each => exact .list (isOrdered_of_ofNodes each hvalues)
  | .rows tables, _, hnode, h => by
    obtain ⟨values, hvalues, heq⟩ := Option.bind_eq_some_iff.1 h
    cases heq
    cases hnode with
    | rows each =>
      exact .list fun item hmem => isOrdered_of_ofNodes each hvalues item (List.mem_reverse.1 hmem)
  | .table _ nodes, _, hnode, h => by
    obtain ⟨entries, hentries, hrest⟩ := Option.bind_eq_some_iff.1 h
    cases hnode with
    | table ascending each =>
      have horder := inOrder_of_ofEntries ascending each hentries
      split at hrest
      · cases hrest
      · cases hrest
        cases hfound : Entries.find? contentKey entries with
        | none => exact isOrdered_table_iff.2 horder
        | some content => exact horder.find? hfound

theorem isOrdered_of_ofNodes : ∀ {nodes : List Toml.Node} {values : List Value},
    (∀ node ∈ nodes, node.IsOrdered) → ofNodes origin nodes = some values →
    ∀ value ∈ values, value.IsOrdered
  | [], _, _, h => by
    cases h
    simp
  | node :: rest, _, hnodes, h => by
    obtain ⟨value, hvalue, hrest⟩ := Option.bind_eq_some_iff.1 h
    obtain ⟨more, hmore, heq⟩ := Option.bind_eq_some_iff.1 hrest
    cases heq
    obtain ⟨hfirst, hlater⟩ := List.forall_mem_cons.1 hnodes
    exact List.forall_mem_cons.2
      ⟨isOrdered_of_ofNode hfirst hvalue, isOrdered_of_ofNodes hlater hmore⟩

theorem inOrder_of_ofEntries : ∀ {nodes : List (String × Toml.Node)} {entries : Entries Value},
    nodes.Pairwise (·.1 < ·.1) → (∀ node ∈ nodes, node.2.IsOrdered) →
    ofEntries origin nodes = some entries → entries.InOrder IsOrdered
  | [], _, _, _, h => by
    cases h
    exact .nil
  | (key, node) :: rest, _, hascending, hnodes, h => by
    have hkeys := keys_ofEntries h
    obtain ⟨value, hvalue, hrest⟩ := Option.bind_eq_some_iff.1 h
    obtain ⟨more, hmore, heq⟩ := Option.bind_eq_some_iff.1 hrest
    cases heq
    obtain ⟨hfirst, hlater⟩ := List.forall_mem_cons.1 hnodes
    have horder := inOrder_of_ofEntries hascending.of_cons hlater hmore
    refine ⟨List.pairwise_map.1 ?_, List.forall_mem_cons.2
      ⟨isOrdered_of_ofNode hfirst hvalue, horder.each⟩⟩
    rw [hkeys]
    exact List.pairwise_map.2 hascending

end

theorem isLayer_of_ofDocument {node : Toml.Node} {layer : Value} (hnode : node.IsOrderedTable)
    (h : ofDocument origin node = some layer) : layer.IsLayer := by
  obtain ⟨standing, nodes, rfl, horder⟩ := hnode
  obtain ⟨entries, hentries, heq⟩ := Option.bind_eq_some_iff.1 h
  cases heq
  exact ⟨_, _, rfl, inOrder_of_ofEntries horder.ascending horder.each hentries⟩

end Value

/-! ### The layer of the variables -/

namespace Environment

variable {α β : Type} {p : α → Prop} {q : β → Prop} {item : Notation α}

/-- Whatever is read off a text in the notation is good. -/
def Notation.Yields (p : α → Prop) (item : Notation α) : Prop :=
  ∀ ⦃input : List Char⦄ ⦃a : α⦄ ⦃rest : List Char⦄, item input = .ok (a, rest) → p a

open Notation

theorem yields_pure {a : α} (h : p a) : Yields p (pure a : Notation α) := by
  intro input b rest hread
  cases hread
  exact h

theorem yields_bind {next : α → Notation β} (hitem : Yields p item)
    (hnext : ∀ a, p a → Yields q (next a)) : Yields q (item >>= next) := by
  intro input b rest hread
  change (item input).bind (fun result => next result.1 result.2) = .ok (b, rest) at hread
  cases hfirst : item input with
  | error misfit =>
    rw [hfirst] at hread
    cases hread
  | ok result =>
    rw [hfirst] at hread
    exact hnext result.1 (hitem hfirst) hread

theorem yields_then {next : α → Notation β} (hnext : ∀ a, Yields q (next a)) :
    Yields q (item >>= next) :=
  yields_bind (p := fun _ => True) (fun _ _ _ _ => trivial) fun a _ => hnext a

theorem yields_map {f : α → β} (hitem : Yields p item) (hf : ∀ a, p a → q (f a)) :
    Yields q (f <$> item) :=
  yields_bind hitem fun a ha => yields_pure (hf a ha)

theorem yields_itemsUpTo {close : Char} (hitem : Yields p item) (fuel : Nat) :
    Yields (fun items => ∀ a ∈ items, p a) (itemsUpTo close item fuel) := by
  induction fuel with
  | zero =>
    intro input items rest hread
    cases hread
  | succ fuel ih =>
    refine yields_then fun isOver => ?_
    cases isOver with
    | true => exact yields_pure (List.forall_mem_nil _)
    | false =>
      refine yields_bind hitem fun first hfirst => yields_then fun hasComma => ?_
      cases hasComma with
      | true =>
        exact yields_bind ih fun more hmore =>
          yields_pure (List.forall_mem_cons.2 ⟨hfirst, hmore⟩)
      | false =>
        exact yields_then fun _ => yields_pure (List.forall_mem_singleton.2 hfirst)

theorem yields_delimited {opening closing : Char} (hitem : Yields p item) :
    Yields (fun items => ∀ a ∈ items, p a) (delimited opening closing item) :=
  yields_then fun _ _ _ _ hread => yields_itemsUpTo hitem _ hread

theorem isOrdered_table {pairs : List (String × Value)} (h : ∀ pair ∈ pairs, pair.2.IsOrdered) :
    (table pairs).IsOrdered := by
  suffices ∀ entries : Entries Value, entries.InOrder Value.IsOrdered →
      Entries.InOrder Value.IsOrdered
        (pairs.foldl (fun entries pair => Entries.put pair.1 pair.2 entries) entries) from
    Value.isOrdered_table_iff.2 (this [] .nil)
  induction pairs with
  | nil => exact fun _ horder => horder
  | cons pair rest ih =>
    obtain ⟨hfirst, hrest⟩ := List.forall_mem_cons.1 h
    exact fun entries horder => ih hrest _ (horder.put hfirst)

theorem yields_value (depth : Nat) : Yields Value.IsOrdered (value depth) := by
  induction depth with
  | zero =>
    intro input result rest hread
    cases hread
  | succ depth ih =>
    refine yields_then fun _ => yields_then fun chars => ?_
    have hentry : Yields (fun pair => pair.2.IsOrdered) (entry (value depth)) :=
      yields_then fun _ => yields_then fun _ => yields_bind ih fun _ h => yields_pure h
    have hscalar : ∀ content, Value.IsOrdered (scalar content) := fun _ => .scalar _ _
    split
    all_goals
      refine yields_bind ?_ fun result hresult => yields_then fun _ => yields_pure hresult
    · exact yields_map (yields_delimited hentry) fun _ => isOrdered_table
    · exact yields_map (yields_delimited ih) fun _ => .list
    · exact yields_map (p := fun _ => True) (fun _ _ _ _ => trivial) fun _ _ => hscalar _
    · exact yields_map (p := fun _ => True) (fun _ _ _ _ => trivial) fun _ _ => hscalar _
    · exact yields_map (p := fun _ => True) (fun _ _ _ _ => trivial) fun _ _ => hscalar _

theorem isOrdered_of_read {text : String} {result : Value} (h : read text = .ok result) :
    result.IsOrdered := by
  unfold read at h
  split at h
  · next hvalue =>
      cases h
      exact yields_value _ hvalue
  · cases h
  · cases h
    exact .scalar _ _

theorem pathOf_ne_nil (chars : List Char) : pathOf chars ≠ [] := by
  fun_cases pathOf chars <;> simp_all

theorem path?_ne_nil {name : String} {path : List String} (h : path? name = some path) :
    path ≠ [] := by
  unfold path? at h
  simp only [Option.ite_none_right_eq_some, Option.ite_none_left_eq_some, Option.some.injEq] at h
  obtain ⟨-, -, rfl⟩ := h
  simpa using pathOf_ne_nil _

/-- The layer of the variables is a table, and all tables in it have their keys in order. -/
theorem isLayer_of_layer {environment : List (String × String)} {lower : Value}
    (h : layer environment = .ok lower) : lower.IsLayer := by
  have hstart : Value.IsLayer (.table .environment []) := Value.isLayer_empty
  unfold layer at h
  generalize Value.table .environment [] = sofar at h hstart
  induction environment generalizing sofar with
  | nil =>
    cases h
    exact hstart
  | cons setting rest ih =>
    obtain ⟨name, text⟩ := setting
    rw [List.foldlM_cons] at h
    cases hpath : path? name with
    | none =>
      simp only [hpath] at h
      exact ih sofar h hstart
    | some path =>
      simp only [hpath] at h
      cases hread : read text with
      | error cause =>
        simp only [hread] at h
        cases h
      | ok value =>
        simp only [hread] at h
        exact ih _ h (hstart.overlay
          (Value.isLayer_under (path?_ne_nil hpath) (isOrdered_of_read hread)))

end Environment

namespace Settings

variable {path : String} {store : FileStore} {layer : Value}

theorem isLayer_of_layerOf {origin : Origin} {content : List UInt8}
    (h : layerOf origin content = .ok layer) : layer.IsLayer := by
  unfold layerOf at h
  split at h
  · cases h
  · split at h
    · cases h
    · next hlayer =>
        cases h
        obtain ⟨node, hnode, hvalue⟩ := Option.bind_eq_some_iff.1 hlayer
        exact Value.isLayer_of_ofDocument (Toml.isOrderedTable_of_read hnode) hvalue

/-- The layer of a file is a table, and all tables in it have their keys in order. -/
theorem isLayer_of_fileLayer (h : fileLayer path store = .ok layer) : layer.IsLayer := by
  unfold fileLayer at h
  split at h
  · exact isLayer_of_layerOf h
  · cases h
    exact Value.isLayer_empty

end Settings

end SplitFeed
