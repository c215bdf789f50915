import ReleaseAudit.Settings.Basic

/-!
# Built-in settings

The conventions of the framework, and a catalog of well-known external types.
-/

namespace ReleaseAudit

set_option autoImplicit false

namespace KnownMember

def action (name : String) : KnownMember :=
  ⟨name, .method, none, none, false, false, none⟩

def method (name returns : String) : KnownMember :=
  { action name with returns := some returns }

def staticAction (name : String) : KnownMember :=
  { action name with isStatic := true }

def staticMethod (name returns : String) : KnownMember :=
  { method name returns with isStatic := true }

def property (name returns : String) : KnownMember :=
  { method name returns with kind := .property }

def taking (parameters : List String) (member : KnownMember) : KnownMember :=
  { member with parameters := some parameters }

def extensionAction (name : String) (parameters : List String) : KnownMember :=
  { staticAction name with parameters := some parameters, isExtension := true }

def genericFactory (name : String) : KnownMember :=
  { staticAction name with returnsTypeArgument := some 0 }

end KnownMember

namespace Settings.Builtin

def systemTypes : List KnownType :=
  [⟨"System.IDisposable", .interfaceType, [], [.taking [] (.action "Dispose")]⟩,
    ⟨"System.IAsyncDisposable", .interfaceType, [],
      [.taking [] (.method "DisposeAsync" "System.Threading.Tasks.ValueTask")]⟩,
    ⟨"System.String", .classType, [], [.property "Length" "System.Int32"]⟩]

def inputOutputTypes : List KnownType :=
  [⟨"System.IO.Stream", .classType, ["System.IDisposable", "System.IAsyncDisposable"],
      [.action "Close", .action "Flush", .action "CopyTo",
       .method "CopyToAsync" "System.Threading.Tasks.Task", .method "Read" "System.Int32",
       .action "Write", .method "WriteAsync" "System.Threading.Tasks.Task",
       .method "Seek" "System.Int64", .property "Length" "System.Int64",
       .property "Position" "System.Int64"]⟩,
    ⟨"System.IO.MemoryStream", .classType, ["System.IO.Stream"],
      [.method "ToArray" "System.Byte[]"]⟩,
    ⟨"System.IO.FileStream", .classType, ["System.IO.Stream"], []⟩,
    ⟨"System.IO.BufferedStream", .classType, ["System.IO.Stream"], []⟩,
    ⟨"System.IO.TextReader", .classType, ["System.IDisposable"],
      [.method "ReadToEnd" "System.String", .method "ReadLine" "System.String", .action "Close"]⟩,
    ⟨"System.IO.TextWriter", .classType, ["System.IDisposable", "System.IAsyncDisposable"],
      [.action "Write", .action "WriteLine", .action "Flush", .action "Close"]⟩,
    ⟨"System.IO.StreamReader", .classType, ["System.IO.TextReader"],
      [.property "BaseStream" "System.IO.Stream"]⟩,
    ⟨"System.IO.StreamWriter", .classType, ["System.IO.TextWriter"],
      [.property "BaseStream" "System.IO.Stream"]⟩,
    ⟨"System.IO.StringReader", .classType, ["System.IO.TextReader"], []⟩,
    ⟨"System.IO.StringWriter", .classType, ["System.IO.TextWriter"], []⟩,
    ⟨"System.IO.BinaryReader", .classType, ["System.IDisposable"],
      [.method "ReadInt32" "System.Int32", .method "ReadString" "System.String",
       .method "ReadBytes" "System.Byte[]", .action "Close"]⟩,
    ⟨"System.IO.BinaryWriter", .classType, ["System.IDisposable", "System.IAsyncDisposable"],
      [.action "Write", .action "Flush", .action "Close"]⟩,
    ⟨"System.IO.File", .classType, [],
      [.staticMethod "OpenRead" "System.IO.FileStream",
       .staticMethod "OpenWrite" "System.IO.FileStream",
       .staticMethod "Open" "System.IO.FileStream",
       .staticMethod "Create" "System.IO.FileStream",
       .staticMethod "OpenText" "System.IO.StreamReader",
       .staticMethod "CreateText" "System.IO.StreamWriter",
       .staticMethod "AppendText" "System.IO.StreamWriter",
       .staticMethod "ReadAllText" "System.String", .staticMethod "ReadAllBytes" "System.Byte[]",
       .staticAction "WriteAllText", .staticAction "WriteAllBytes",
       .staticMethod "Exists" "System.Boolean"]⟩,
    ⟨"System.IO.FileInfo", .classType, [],
      [.method "OpenRead" "System.IO.FileStream", .method "OpenText" "System.IO.StreamReader",
       .method "Create" "System.IO.FileStream"]⟩,
    ⟨"System.IO.Compression.GZipStream", .classType, ["System.IO.Stream"], []⟩,
    ⟨"System.IO.Compression.DeflateStream", .classType, ["System.IO.Stream"], []⟩,
    ⟨"System.IO.Compression.ZipArchive", .classType, ["System.IDisposable"], []⟩,
    ⟨"System.IO.Compression.ZipFile", .classType, [],
      [.staticMethod "OpenRead" "System.IO.Compression.ZipArchive",
       .staticMethod "Open" "System.IO.Compression.ZipArchive"]⟩]

def cryptographyTypes : List KnownType :=
  [⟨"System.Security.Cryptography.ICryptoTransform", .interfaceType, ["System.IDisposable"], []⟩,
    ⟨"System.Security.Cryptography.CryptoStream", .classType, ["System.IO.Stream"],
      [.action "FlushFinalBlock"]⟩,
    ⟨"System.Security.Cryptography.SymmetricAlgorithm", .classType, ["System.IDisposable"],
      [.method "CreateEncryptor" "System.Security.Cryptography.ICryptoTransform",
       .method "CreateDecryptor" "System.Security.Cryptography.ICryptoTransform",
       .action "GenerateKey", .action "GenerateIV", .property "Key" "System.Byte[]",
       .property "IV" "System.Byte[]"]⟩,
    ⟨"System.Security.Cryptography.Aes", .classType,
      ["System.Security.Cryptography.SymmetricAlgorithm"],
      [.staticMethod "Create" "System.Security.Cryptography.Aes"]⟩,
    ⟨"System.Security.Cryptography.AesCryptoServiceProvider", .classType,
      ["System.Security.Cryptography.Aes"],
      []⟩,
    ⟨"System.Security.Cryptography.AesManaged", .classType, ["System.Security.Cryptography.Aes"],
      []⟩,
    ⟨"System.Security.Cryptography.RijndaelManaged", .classType,
      ["System.Security.Cryptography.SymmetricAlgorithm"],
      []⟩,
    ⟨"System.Security.Cryptography.DeriveBytes", .classType, ["System.IDisposable"],
      [.method "GetBytes" "System.Byte[]"]⟩,
    ⟨"System.Security.Cryptography.Rfc2898DeriveBytes", .classType,
      ["System.Security.Cryptography.DeriveBytes"],
      []⟩,
    ⟨"System.Security.Cryptography.HashAlgorithm", .classType, ["System.IDisposable"],
      [.method "ComputeHash" "System.Byte[]"]⟩,
    ⟨"System.Security.Cryptography.SHA256", .classType,
      ["System.Security.Cryptography.HashAlgorithm"],
      [.staticMethod "Create" "System.Security.Cryptography.SHA256"]⟩,
    ⟨"System.Security.Cryptography.MD5", .classType,
      ["System.Security.Cryptography.HashAlgorithm"],
      [.staticMethod "Create" "System.Security.Cryptography.MD5"]⟩,
    ⟨"System.Security.Cryptography.HMACSHA256", .classType,
      ["System.Security.Cryptography.HashAlgorithm"],
      []⟩,
    ⟨"System.Security.Cryptography.RandomNumberGenerator", .classType, ["System.IDisposable"],
      [.staticMethod "Create" "System.Security.Cryptography.RandomNumberGenerator",
       .action "GetBytes"]⟩]

def networkTypes : List KnownType :=
  [⟨"System.Net.Http.HttpClient", .classType, ["System.IDisposable"],
      [.method "GetAsync" "System.Threading.Tasks.Task<System.Net.Http.HttpResponseMessage>",
       .method "PostAsync" "System.Threading.Tasks.Task<System.Net.Http.HttpResponseMessage>",
       .method "SendAsync" "System.Threading.Tasks.Task<System.Net.Http.HttpResponseMessage>",
       .method "GetStreamAsync" "System.Threading.Tasks.Task<System.IO.Stream>",
       .method "GetStringAsync" "System.Threading.Tasks.Task<System.String>"]⟩,
    ⟨"System.Net.Http.HttpResponseMessage", .classType, ["System.IDisposable"],
      [.property "Content" "System.Net.Http.HttpContent",
       .method "EnsureSuccessStatusCode" "System.Net.Http.HttpResponseMessage"]⟩,
    ⟨"System.Net.Http.HttpRequestMessage", .classType, ["System.IDisposable"], []⟩,
    ⟨"System.Net.Http.HttpContent", .classType, ["System.IDisposable"],
      [.method "ReadAsStreamAsync" "System.Threading.Tasks.Task<System.IO.Stream>",
       .method "ReadAsStringAsync" "System.Threading.Tasks.Task<System.String>"]⟩,
    ⟨"System.Net.Http.StringContent", .classType, ["System.Net.Http.HttpContent"], []⟩,
    ⟨"System.Net.Http.StreamContent", .classType, ["System.Net.Http.HttpContent"], []⟩,
    ⟨"System.Net.WebClient", .classType, ["System.IDisposable"], []⟩,
    ⟨"System.Net.Sockets.Socket", .classType, ["System.IDisposable"], [.action "Close"]⟩,
    ⟨"System.Net.Sockets.TcpClient", .classType, ["System.IDisposable"],
      [.method "GetStream" "System.Net.Sockets.NetworkStream", .action "Close"]⟩,
    ⟨"System.Net.Sockets.NetworkStream", .classType, ["System.IO.Stream"], []⟩,
    ⟨"System.Data.IDbConnection", .interfaceType, ["System.IDisposable"],
      [.method "CreateCommand" "System.Data.IDbCommand", .action "Open", .action "Close"]⟩,
    ⟨"System.Data.IDbCommand", .interfaceType, ["System.IDisposable"],
      [.method "ExecuteReader" "System.Data.IDataReader"]⟩,
    ⟨"System.Data.IDataReader", .interfaceType, ["System.IDisposable"],
      [.method "Read" "System.Boolean"]⟩,
    ⟨"System.Data.SqlClient.SqlConnection", .classType, ["System.Data.IDbConnection"],
      [.method "CreateCommand" "System.Data.SqlClient.SqlCommand"]⟩,
    ⟨"System.Data.SqlClient.SqlCommand", .classType, ["System.Data.IDbCommand"],
      [.method "ExecuteReader" "System.Data.SqlClient.SqlDataReader"]⟩,
    ⟨"System.Data.SqlClient.SqlDataReader", .classType, ["System.Data.IDataReader"], []⟩]

def threadingTypes : List KnownType :=
  [⟨"System.Threading.CancellationTokenSource", .classType, ["System.IDisposable"],
      [.action "Cancel"]⟩,
    ⟨"System.Threading.SemaphoreSlim", .classType, ["System.IDisposable"], []⟩,
    ⟨"System.Threading.Timer", .classType, ["System.IDisposable"], []⟩,
    ⟨"System.Threading.Tasks.Task", .classType, ["System.IDisposable"],
      [.action "Wait",
       .method "ConfigureAwait" "System.Runtime.CompilerServices.ConfiguredTaskAwaitable"]⟩,
    ⟨"System.Threading.Tasks.Task<TResult>", .classType, ["System.Threading.Tasks.Task"],
      [.property "Result" "TResult",
       .method "ConfigureAwait"
         "System.Runtime.CompilerServices.ConfiguredTaskAwaitable<TResult>"]⟩,
    ⟨"System.Threading.Tasks.ValueTask", .structType, [], []⟩,
    ⟨"System.Threading.Tasks.ValueTask<TResult>", .structType, [],
      [.property "Result" "TResult"]⟩,
    ⟨"System.Runtime.CompilerServices.ConfiguredTaskAwaitable", .structType, [], []⟩,
    ⟨"System.Runtime.CompilerServices.ConfiguredTaskAwaitable<TResult>", .structType, [], []⟩]

def collectionTypes : List KnownType :=
  [⟨"System.Collections.IEnumerator", .interfaceType, [], [.method "MoveNext" "System.Boolean"]⟩,
    ⟨"System.Collections.Generic.IEnumerator<T>", .interfaceType,
      ["System.IDisposable", "System.Collections.IEnumerator"],
      [.property "Current" "T"]⟩,
    ⟨"System.Collections.Generic.IEnumerable<T>", .interfaceType, [],
      [.method "GetEnumerator" "System.Collections.Generic.IEnumerator<T>"]⟩,
    ⟨"System.Collections.Generic.List<T>", .classType,
      ["System.Collections.Generic.IEnumerable<T>"],
      [.action "Add", .property "Count" "System.Int32",
       .method "GetEnumerator" "System.Collections.Generic.IEnumerator<T>"]⟩]

def libraryTypes : List KnownType :=
  [⟨"System.Reactive.Disposables.CompositeDisposable", .classType, ["System.IDisposable"],
      [.taking ["System.IDisposable"] (.action "Add"),
       .taking ["System.IDisposable"] (.method "Remove" "System.Boolean")]⟩,
    ⟨"System.Reactive.Disposables.SerialDisposable", .classType, ["System.IDisposable"],
      [.property "Disposable" "System.IDisposable"]⟩,
    ⟨"ReactiveUI.DisposableMixins", .classType, [],
      [.extensionAction "DisposeWith"
        ["System.IDisposable", "System.Reactive.Disposables.CompositeDisposable"]]⟩,
    ⟨"Microsoft.AspNetCore.Http.HttpResponse", .classType, [],
      [.taking ["System.IDisposable"] (.action "RegisterForDispose"),
       .taking ["System.IAsyncDisposable"] (.action "RegisterForDisposeAsync")]⟩,
    ⟨"Microsoft.AspNetCore.Http.HttpContext", .classType, [],
      [.property "Response" "Microsoft.AspNetCore.Http.HttpResponse"]⟩,
    ⟨"FakeItEasy.A", .classType, [], [.genericFactory "Fake"]⟩,
    ⟨"NSubstitute.Substitute", .classType, [], [.genericFactory "For"]⟩,
    ⟨"Moq.Mock", .classType, [], [.genericFactory "Of"]⟩]

def ownershipTransfer : List MethodRule :=
  [⟨"System.Reactive.Disposables.CompositeDisposable", ["Add(System.IDisposable)"]⟩,
    ⟨"Microsoft.AspNetCore.Http.HttpResponse",
      ["RegisterForDispose(System.IDisposable)",
       "RegisterForDisposeAsync(System.IAsyncDisposable)"]⟩,
    ⟨"ReactiveUI.DisposableMixins", ["DisposeWith"]⟩]

def releaseEquivalent : List MethodRule :=
  [⟨"System.IO.Stream", ["Close"]⟩,
    ⟨"System.IO.TextReader", ["Close"]⟩,
    ⟨"System.IO.TextWriter", ["Close"]⟩,
    ⟨"System.IO.BinaryReader", ["Close"]⟩,
    ⟨"System.IO.BinaryWriter", ["Close"]⟩,
    ⟨"System.Net.Sockets.Socket", ["Close"]⟩,
    ⟨"System.Net.Sockets.TcpClient", ["Close"]⟩]

def ignoredFactories : List MethodRule :=
  [⟨"FakeItEasy.A", ["Fake"]⟩,
    ⟨"NSubstitute.Substitute", ["For"]⟩,
    ⟨"Moq.Mock", ["Of"]⟩]

def trackingTypes : List TrackingRule :=
  [⟨"System.IO.StreamReader", some ⟨"leaveOpen", 4⟩⟩,
    ⟨"System.IO.StreamWriter", some ⟨"leaveOpen", 3⟩⟩,
    ⟨"System.IO.BinaryReader", some ⟨"leaveOpen", 2⟩⟩,
    ⟨"System.IO.BinaryWriter", some ⟨"leaveOpen", 2⟩⟩,
    ⟨"System.IO.BufferedStream", none⟩,
    ⟨"System.Security.Cryptography.CryptoStream", some ⟨"leaveOpen", 3⟩⟩,
    ⟨"System.IO.Compression.GZipStream", some ⟨"leaveOpen", 2⟩⟩,
    ⟨"System.IO.Compression.DeflateStream", some ⟨"leaveOpen", 2⟩⟩,
    ⟨"System.IO.Compression.ZipArchive", some ⟨"leaveOpen", 2⟩⟩,
    ⟨"System.Net.Http.StreamContent", none⟩,
    ⟨"System.Reactive.Disposables.CompositeDisposable", none⟩]

end Settings.Builtin

namespace Settings

/-- The settings in force without a user layer. -/
def builtin : Settings where
  diagnosticId := some "DISP001"
  profile := some .default
  disposalContracts := ["System.IDisposable", "System.IAsyncDisposable"]
  releaseMethods := ["Dispose", "DisposeAsync"]
  releaseDesignatedMethods := ["Dispose", "DisposeAsync"]
  ignoredTypes :=
    ["System.Threading.Tasks.Task",
      "System.Threading.Tasks.ValueTask",
      "System.Collections.Generic.IEnumerator",
      "System.Runtime.CompilerServices.ConfiguredTaskAwaitable"]
  ownershipTransfer := Builtin.ownershipTransfer
  releaseEquivalent := Builtin.releaseEquivalent
  ignoredFactories := Builtin.ignoredFactories
  trackingTypes := Builtin.trackingTypes
  knownTypes :=
    Builtin.systemTypes ++ Builtin.inputOutputTypes ++ Builtin.cryptographyTypes ++
      Builtin.networkTypes ++ Builtin.threadingTypes ++ Builtin.collectionTypes ++
      Builtin.libraryTypes

end Settings

end ReleaseAudit
