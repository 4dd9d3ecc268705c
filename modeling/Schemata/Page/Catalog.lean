import Schemata.Page.Sections

/-!
# The catalog

The catalog lists every schema under its category, with a link to its page and the beginning of its
description. Categories stand in the order of their names, schemas in the order of their paths.
-/

namespace Schemata

structure CatalogOptions where
  title : String
  summaryLength : Nat
deriving DecidableEq, Repr

def CatalogOptions.standard : CatalogOptions := ⟨"Ontology Reference", 100⟩

namespace Catalog

def categories (ss : List Schema) : List Category :=
  dropRepeats ((ss.map (·.category)).mergeSort fun a b => decide (a.name ≤ b.name))
where
  dropRepeats : List Category → List Category
    | [] => []
    | [c] => [c]
    | c :: e :: rest => if c = e then dropRepeats (e :: rest) else c :: dropRepeats (e :: rest)

def members (ss : List Schema) (c : Category) : List Schema :=
  (ss.filter (·.category = c)).mergeSort fun a b => (a.path.compare b.path).isLE

def entry (o : CatalogOptions) (s : Schema) : String :=
  "- **[" ++ s.title ++ "](./" ++ s.pagePath.text ++ ")** - "
    ++ summary (s.description?.getD Page.noDescription) o.summaryLength ++ "\n"

def group (o : CatalogOptions) (ss : List Schema) (c : Category) : String :=
  let ms := members ss c
  "### " ++ c.title ++ "\n\n**" ++ toString ms.length ++ " schemas**\n\n"
    ++ String.join (ms.map (entry o)) ++ "\n"

end Catalog

def catalog (o : CatalogOptions) (ss : List Schema) : String :=
  "# " ++ o.title
    ++ "\n\nThis document provides a complete reference for all schemas."
    ++ "\n\n## Schema Categories\n\n"
    ++ String.join ((Catalog.categories ss).map (Catalog.group o ss))
    ++ "## Total Schemas: " ++ toString ss.length ++ "\n\n"

end Schemata
