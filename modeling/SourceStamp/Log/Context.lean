import SourceStamp.SourceLocation

/-!
# Contexts

What a logger knows about its entries before they are made.

- `Context`: a component, tags and metadata.
- `Context.merged`: the context that another one refines.
-/

namespace SourceStamp

/-- What a logger knows about its entries (`LogContext`). -/
structure Context where
  /-- The name of the component, which wins over one that a trace tells. -/
  componentName : Option Text
  /-- The id of the instance of the component. -/
  componentId : Option Text
  /-- Labels. -/
  tags : List Text
  /-- Further fields, perhaps with a stamp among them. -/
  metadata : Fields
  deriving Repr

namespace Context

/-- Nothing is known. -/
def empty : Context := ⟨none, none, [], []⟩

/-- The context of a component. -/
def ofComponent (name id : Text) : Context := ⟨some name, some id, [], []⟩

/-- The context of tags. -/
def ofTags (tags : List Text) : Context := ⟨none, none, tags, []⟩

/-- The context of metadata. -/
def ofMetadata (metadata : Fields) : Context := ⟨none, none, [], metadata⟩

/-- The context that another one refines: its component wins where it has one, its tags come after,
each tag once, and its metadata win (`LogContext.merged`). -/
def merged (c other : Context) : Context where
  componentName := (present? other.componentName).or c.componentName
  componentId := (present? other.componentId).or c.componentId
  tags := Text.distinct (c.tags ++ other.tags)
  metadata := c.metadata.override other.metadata

end Context
end SourceStamp
