import ClasspathIndex.Archive.Checksum
import ClasspathIndex.Archive.Code
import ClasspathIndex.Archive.Directory
import ClasspathIndex.Archive.EndRecord
import ClasspathIndex.Archive.ExtraField
import ClasspathIndex.Archive.Inflate
import ClasspathIndex.Archive.Member
import ClasspathIndex.Archive.Reader
import ClasspathIndex.Archive.Record
import ClasspathIndex.Bytes
import ClasspathIndex.ClassFile.Annotations
import ClasspathIndex.ClassFile.Constant
import ClasspathIndex.ClassFile.Reader
import ClasspathIndex.ClassFile.Summary
import ClasspathIndex.Classpath.Entries
import ClasspathIndex.Classpath.Root
import ClasspathIndex.Classpath.Scan
import ClasspathIndex.CommandLine.Arguments
import ClasspathIndex.CommandLine.Options
import ClasspathIndex.CommandLine.Run
import ClasspathIndex.CommandLine.Usage
import ClasspathIndex.Descriptor.FieldType
import ClasspathIndex.Descriptor.Parameters
import ClasspathIndex.FileTree.Basic
import ClasspathIndex.FileTree.Leaves
import ClasspathIndex.FileTree.Path
import ClasspathIndex.Index.Build
import ClasspathIndex.Index.NameGroups
import ClasspathIndex.Index.Resolution
import ClasspathIndex.Linker
import ClasspathIndex.Main
import ClasspathIndex.Namespace
import ClasspathIndex.Proofs.ClassFile.ConstantPool
import ClasspathIndex.Proofs.ClassFile.Encoding
import ClasspathIndex.Proofs.ClassFile.Methods
import ClasspathIndex.Proofs.ClassFile.Reading
import ClasspathIndex.Proofs.ClassFile.RoundTrip
import ClasspathIndex.Proofs.ClassFile.Truncation
import ClasspathIndex.Proofs.Classpath.ClassNames
import ClasspathIndex.Proofs.Classpath.DirectoryWalk
import ClasspathIndex.Proofs.Classpath.Location
import ClasspathIndex.Proofs.Classpath.Reach
import ClasspathIndex.Proofs.Classpath.RootKinds
import ClasspathIndex.Proofs.Classpath.Scanned
import ClasspathIndex.Proofs.Classpath.Spellings
import ClasspathIndex.Proofs.Classpath.SuppliedRoots
import ClasspathIndex.Proofs.Classpath.Walk
import ClasspathIndex.Proofs.Descriptor.Grammar
import ClasspathIndex.Proofs.Descriptor.Signature
import ClasspathIndex.Proofs.FileTree.Continuation
import ClasspathIndex.Proofs.FileTree.Leaves
import ClasspathIndex.Proofs.FileTree.Links
import ClasspathIndex.Proofs.FileTree.Names
import ClasspathIndex.Proofs.FileTree.Nodes
import ClasspathIndex.Proofs.FileTree.Order
import ClasspathIndex.Proofs.FileTree.Resolution
import ClasspathIndex.Proofs.FileTree.Text
import ClasspathIndex.Proofs.Index.Accounting
import ClasspathIndex.Proofs.Index.Comparison
import ClasspathIndex.Proofs.Index.Distinct
import ClasspathIndex.Proofs.Index.IdleRoots
import ClasspathIndex.Proofs.Index.Lookup
import ClasspathIndex.Proofs.Index.NameGroups
import ClasspathIndex.Proofs.Index.NestedRoots
import ClasspathIndex.Proofs.Index.Overlay
import ClasspathIndex.Proofs.Index.Policies
import ClasspathIndex.Proofs.Index.Resolution
import ClasspathIndex.Proofs.Index.RootKinds
import ClasspathIndex.Proofs.Index.RootOrder
import ClasspathIndex.Proofs.Index.Selection
import ClasspathIndex.Proofs.Index.Tables
import ClasspathIndex.Proofs.Linker
import ClasspathIndex.Proofs.QualifiedName
import ClasspathIndex.Proofs.Reference
import ClasspathIndex.Proofs.Registry
import ClasspathIndex.Proofs.Sorting
import ClasspathIndex.Proofs.Text.ModifiedUtf8
import ClasspathIndex.Proofs.Text.Split
import ClasspathIndex.Proofs.Text.Trim
import ClasspathIndex.Proofs.Text.Utf16
import ClasspathIndex.Proofs.Text.Utf8
import ClasspathIndex.QualifiedName
import ClasspathIndex.Reference
import ClasspathIndex.Registry
import ClasspathIndex.Settings.Basic
import ClasspathIndex.Settings.Load
import ClasspathIndex.Symbol
import ClasspathIndex.Text.Ascii
import ClasspathIndex.Text.Blank
import ClasspathIndex.Text.CodePage437
import ClasspathIndex.Text.Json
import ClasspathIndex.Text.ModifiedUtf8
import ClasspathIndex.Text.Split
import ClasspathIndex.Text.Utf16
import ClasspathIndex.Text.Utf8
import ClasspathIndex.Toml.Document
import ClasspathIndex.Toml.Quoted
import ClasspathIndex.Toml.Scalar
import ClasspathIndex.Toml.Table
import ClasspathIndex.Proofs.Text.Damage
import ClasspathIndex.Proofs.Classpath.Confinement
import ClasspathIndex.Proofs.Descriptor.Display
import ClasspathIndex.Proofs.Index.Overloads
import ClasspathIndex.Proofs.Descriptor.Cursor
import ClasspathIndex.Proofs.ClassFile.Annotations
import ClasspathIndex.Proofs.Text.Json
import ClasspathIndex.Proofs.CommandLine.Run
