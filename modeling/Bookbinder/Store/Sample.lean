import Bookbinder.Store.Memory
/-!
# Stores to try things out

A store in memory with something for every text and file that builds need, so that it only wants topics.
-/
namespace Bookbinder
namespace MemoryStore

/-- A configuration that has places for the language and the brand. -/
def sampleConfig : String := "xml_lang: en-US\ntype: Book\nbrand: <<contentSpec.brand>>\n"

/-- A store without topics, a definition that allows everything, and short files in all other places. -/
def sample : MemoryStore :=
  let s := (({} : MemoryStore).addBlob ConstantId.docbookDtd .empty).addBlob ConstantId.placeholderImage
    "failpenguin".toUTF8
  let s := (s.addText ConstantId.publicanCfg sampleConfig).addText ConstantId.icon "<svg/>"
  let s := skynetTexts.foldl (fun s a => s.addText a.1 ("/* " ++ a.2 ++ " */")) s
  skynetBlobs.foldl (fun s a => s.addBlob a.1 "GIF".toUTF8) s

end MemoryStore
end Bookbinder
