import Runscope.Search

/-!
The tag filter of `list_experiments`.

The filter looks for the tag between quotation marks in the JSON text of the
row's tags, with `LIKE`. Characters that the encoder escapes or that are
special in patterns make it miss tags or take others for them, and so does a
tag that ends in a quotation mark and the text. What it finds between two
quotation marks are runs of the parts that these cut the JSON text into.
-/

namespace Runscope

open Transact

section Matches

variable {q : String} {tags : List String}

end Matches

section Filter

variable {rt : Runtime} {tag : String} {e : Experiment} {tags : List String}

end Filter

namespace Demo

/-- Experiments with tags as they are stored. -/
def marked : Catalog :=
  { vision with
    experiments :=
      ⟨[⟨2, 1, "First", "", some ["100 runs", "iris"], 5⟩, ⟨3, 1, "Second", "", some ["café"], 5⟩,
        ⟨4, 1, "Third", "", some ["a\"b"], 5⟩], by decide⟩ }

end Demo

end Runscope
