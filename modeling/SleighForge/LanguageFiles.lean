import SleighForge.Config
import SleighForge.Text.Markup

/-!
# Language definition files

The XML files that declare a language to the disassembler: the definition itself, the processor
specification and the compiler specification. They depend on the configuration only.
-/

namespace SleighForge

open Text

/-- The register that holds the program counter in every module. -/
def programCounter : String := "pc"

/-- The register that holds the stack pointer in every module. -/
def stackPointer : String := "sp"

namespace LanguageFiles

/-- The first line of each file. -/
def xmlHeader : String :=
  "<?xml version=\"1.0\" encoding=\"UTF-8\"?>"

/-- The language definition. -/
def definition (c : Config) : String :=
  let name := quoteAttribute c.name
  let byteOrder := quoteAttribute c.byteOrder.name
  let slaFile := quoteAttribute (c.name ++ ".sla")
  let processorSpec := quoteAttribute (c.name ++ ".pspec")
  let compilerSpec := quoteAttribute (c.name ++ ".cspec")
  let id := quoteAttribute c.languageId
  "\n".intercalate [
    xmlHeader,
    "<language_definitions>",
    s!"  <language processor={name}",
    s!"            endian={byteOrder}",
    s!"            size=\"{c.bitness}\"",
    "            variant=\"default\"",
    "            version=\"1.0\"",
    s!"            slafile={slaFile}",
    s!"            processorspec={processorSpec}",
    s!"            id={id}>",
    s!"    <description>{escapeText c.family} {escapeText c.name}</description>",
    s!"    <compiler name=\"default\" spec={compilerSpec} id=\"default\"/>",
    "  </language>",
    "</language_definitions>",
    ""]

/-- The processor specification, which names the program counter. -/
def processorSpecification : String :=
  "\n".intercalate [
    xmlHeader,
    "<processor_spec>",
    s!"  <programcounter register=\"{programCounter}\"/>",
    "</processor_spec>",
    ""]

/-- The compiler specification, which names the stack pointer. -/
def compilerSpecification : String :=
  "\n".intercalate [
    xmlHeader,
    "<compiler_spec>",
    "  <global>",
    "    <range space=\"ram\"/>",
    "  </global>",
    s!"  <stackpointer register=\"{stackPointer}\" space=\"ram\"/>",
    "  <default_proto>",
    "    <prototype name=\"__stdcall\" extrapop=\"unknown\" stackshift=\"0\">",
    "      <input/>",
    "      <output/>",
    "    </prototype>",
    "  </default_proto>",
    "</compiler_spec>",
    ""]

end LanguageFiles

end SleighForge
